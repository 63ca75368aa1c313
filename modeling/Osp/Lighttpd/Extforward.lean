import Osp.Lighttpd.Request
import Mathlib.Data.List.DropRight

/-!
# Forwarded addresses

The part of `mod_extforward.c` that chooses the address of the client, from `X-Forwarded-For` and from `Forwarded`. The value of a header is
read as a C string, so a function takes its bytes up to the first NUL. What `inet_aton`, `inet_pton` and `getaddrinfo` do with an address is
a parameter.
-/

namespace Osp.Lighttpd

open Osp.Lib

/-- The configuration, and the functions of the C library on addresses: `extforward.forwarder` with an empty value for an untrusted proxy,
the masks, `sock_addr_inet_pton`, `sock_addr_is_addr_eq_bits` and whether `sock_addr_from_str_numeric` succeeds. -/
structure ForwardConf (Addr : Type) where
  forwarder : Headers
  forwardMasks : Option (List (Addr × Nat))
  inetPton : Bytes → Option Addr
  isAddrEqBits : Addr → Addr → Nat → Bool
  isNumeric : Bytes → Bool

variable {Addr : Type} (p : ForwardConf Addr)

/-- `is_proxy_trusted`. -/
def isProxyTrusted (ip : Bytes) : Bool :=
  match p.forwarder.getElement ip with
  | some value => value ≠ []
  | none =>
    match p.forwardMasks with
    | none => false
    | some masks =>
      if 64 ≤ ip.length then false
      else
        match p.inetPton ip with
        | none => false
        | some addr => masks.any fun mask => p.isAddrEqBits addr mask.1 mask.2

/-- `mod_extforward_set_addr`: the new address of the client, if the text is an address. -/
def setAddr (addr : Bytes) : Option Bytes := if p.isNumeric addr then some addr else none

/-! ## X-Forwarded-For -/

/-- A byte that an address may start with. -/
def isLeading (c : UInt8) : Bool := (48 ≤ c && c ≤ 57) || c = 58 || (97 ≤ c && c ≤ 102) || (65 ≤ c && c ≤ 70)

/-- A byte of an address. -/
def isAddrByte (c : UInt8) : Bool := (48 ≤ c && c ≤ 57) || c = 46 || c = 58 || (97 ≤ c && c ≤ 102) || (65 ≤ c && c ≤ 70)

/-- The loop of `extract_forward_array`. The address that is being read is there if `in_str` is set. -/
def extractLoop : Option Bytes → Bytes → List Bytes
  | some base, [] => [base]
  | none, [] => []
  | some base, c :: rest => if isAddrByte c then extractLoop (some (base ++ [c])) rest else base :: extractLoop none rest
  | none, c :: rest => if isLeading c then extractLoop (some [c]) rest else extractLoop none rest

/-- `extract_forward_array`. -/
def extractForwardArray (value : Bytes) : List Bytes := extractLoop none (cString value)

/-- `last_not_in_array`. -/
def lastNotInArray (a : List Bytes) : Option Bytes := a.reverse.find? fun ip => !isProxyTrusted p ip

/-- The address that `mod_extforward_X_Forwarded_For` sets, if it sets one. -/
def xForwardedFor (value : Bytes) : Option Bytes := (lastNotInArray p (extractForwardArray value)).bind (setAddr p)

/-! ## Forwarded -/

/-- Ways to fail: status 400, and an access out of bounds. -/
inductive ForwardedFault where
  | badRequest
  | outOfBounds
deriving DecidableEq

/-- `find_end_quoted_string`, on what follows the opening quote: how far the closing one is. -/
def findEndQuotedString : Bytes → Option Nat
  | [] => none
  | [c] => if c = 34 then some 0 else none
  | c :: d :: rest =>
    if c = 34 then some 0
    else if c = 92 then (findEndQuotedString rest).map (· + 2)
    else (findEndQuotedString (d :: rest)).map (· + 1)

/-- The loop of `find_next_semicolon_or_comma_or_eq` and `find_next_semicolon_or_comma`: how far the next byte is at which it stops, or the
end. The first number counts the bytes of a quoted string that are passed over. -/
def findNext (stop : UInt8 → Bool) : Nat → Bytes → Option Nat
  | _, [] => some 0
  | skip + 1, _ :: rest => (findNext stop skip rest).map (· + 1)
  | 0, c :: rest =>
    if stop c then some 0
    else if c = 34 then
      match findEndQuotedString rest with
      | none => none
      | some n => (findNext stop (n + 1) rest).map (· + 1)
    else (findNext stop 0 rest).map (· + 1)

/-- `find_next_semicolon_or_comma_or_eq`. -/
def findNextSemicolonOrCommaOrEq : Bytes → Option Nat := findNext (fun c => c = 61 || c = 59 || c = 44) 0

/-- `find_next_semicolon_or_comma`. -/
def findNextSemicolonOrComma : Bytes → Option Nat := findNext (fun c => c = 59 || c = 44) 0

/-- An entry of `offsets`: -1, or where a parameter has its name and its value. -/
inductive Offset where
  | separator
  | param (k klen v vlen : Nat)
deriving DecidableEq

/-- How many numbers of the array an entry takes. -/
def Offset.width : Offset → Nat
  | .separator => 1
  | .param .. => 4

/-- How many numbers of the array are used: `j + 1`. -/
def usedOffsets (offsets : List Offset) : Nat := (offsets.map Offset.width).sum

/-- The loop of `mod_extforward_Forwarded` that fills `offsets`, at the position `i` with the given text ahead. The array has room for 256
numbers; at a comma the last index that is used is compared with 256 before the next one is written. A round reads a byte or more. -/
def scanParams : Nat → Nat → Bytes → List Offset → Except ForwardedFault (List Offset)
  | 0, _, _, offsets => .ok offsets
  | fuel + 1, start, ahead, offsets =>
    let i := start + (ahead.takeWhile isBlank).length
    match ahead.dropWhile isBlank with
    | [] => .ok offsets
    | c :: rest =>
      if c = 59 then scanParams fuel (i + 1) rest offsets
      else if c = 44 then
        if 256 < usedOffsets offsets then .ok offsets
        else if usedOffsets offsets = 256 then .error .outOfBounds
        else scanParams fuel (i + 1) rest (offsets ++ [.separator])
      else
        match findNextSemicolonOrCommaOrEq (c :: rest) with
        | none => .error .badRequest
        | some klen =>
          match (c :: rest).drop klen with
          | [] => .ok offsets
          | d :: value =>
            if d ≠ 61 then scanParams fuel (i + klen) (d :: value) offsets
            else
              match findNextSemicolonOrComma value with
              | none => .error .badRequest
              | some vlen =>
                if klen = 0 then scanParams fuel (i + klen + 1 + vlen) (value.drop vlen) offsets
                else if 252 < usedOffsets offsets then .ok offsets
                else
                  scanParams fuel (i + klen + 1 + vlen) (value.drop vlen) (offsets ++ [.param i klen (i + klen + 1) vlen])

/-- The identifier in the value of a `for`: without blanks at its end, quotes, brackets and port. A lone bracket gives a length of -1. -/
def forIdentifier (value : Bytes) : Except ForwardedFault Bytes :=
  let value := value.rdropWhile isBlank
  if 1 < value.length && value.head? = some 34 && value.getLast? = some 34 then
    match (value.drop 1).dropLast with
    | [] => .ok []
    | c :: rest =>
      if c = 91 then
        if rest = [] then .error .outOfBounds
        else
          match (rest.rdropWhile (· ≠ 93)).dropLast with
          | [] => .error .badRequest
          | addr => .ok addr
      else if c = 95 || c = 47 || c = 117 then .ok (c :: rest)
      else .ok ((c :: rest).takeWhile (· ≠ 58))
  else .ok value

/-- An identifier that is not an address: a path, an obfuscated one, or unknown. -/
def isObfuscated (ident : Bytes) : Bool := ident.head? = some 95 || ident.head? = some 47 || ident = textBytes "unknown"

/-- The bytes of a text at a position. -/
def slice (s : Bytes) (i n : Nat) : Bytes := (s.drop i).take n

/-- The second loop of `mod_extforward_Forwarded`, over the entries of `offsets` from the last one on. The flag is set if the `for` of a set
of parameters has been read, so that the rest of the set is passed over. The address is that of `ofor`. -/
def selectFor (p : ForwardConf Addr) (s : Bytes) : Bool → List Offset → Option Bytes → Except ForwardedFault (Option Bytes)
  | _, [], ofor => .ok ofor
  | _, .separator :: rest, ofor => selectFor p s false rest ofor
  | true, .param .. :: rest, ofor => selectFor p s true rest ofor
  | false, .param k klen v vlen :: rest, ofor =>
    if sameName (slice s k klen) (textBytes "for") then
      match forIdentifier (slice s v vlen) with
      | .error fault => .error fault
      | .ok ident =>
        if ident = [] then selectFor p s true rest ofor
        else
          let ofor := if isObfuscated ident then ofor else some ident
          if isProxyTrusted p ident then selectFor p s true rest ofor else .ok ofor
    else selectFor p s false rest ofor

/-- The address that `mod_extforward_Forwarded` sets, if it sets one. -/
def forwardedAddress (value : Bytes) : Except ForwardedFault (Option Bytes) :=
  let s := cString value
  match scanParams (s.length + 1) 0 s [] with
  | .error fault => .error fault
  | .ok offsets =>
    if 252 < usedOffsets offsets then .error .badRequest
    else (selectFor p s false offsets.reverse none).map (Option.bind · (setAddr p))

end Osp.Lighttpd
