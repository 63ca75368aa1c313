import Osp.Lighttpd.Path

/-!
# Normalising a URL

`burl_normalize` of `burl.c` and the functions it uses, for systems where a backslash is not a separator. A URL is rewritten in place
several times; `qs` is the index of the query in it, -1 if it has none and -2 if it is rejected. As this index is used after the
URL has become shorter, the bytes that stand in the buffer after the URL are part of the model.
-/

namespace Osp.Lighttpd

open Osp.Lib

/-- The flags of `HTTP_PARSEOPT_URL_NORMALIZE` that are tested. -/
structure UrlFlags where
  required : Bool
  ctrlsReject : Bool
  path2fDecode : Bool
  path2fReject : Bool
  pathDotsegRemove : Bool
  pathDotsegReject : Bool
  query20Plus : Bool

/-! ## Percent-encoding -/

/-- `encoded_chars_http_uri_reqd`. -/
def encodedReqd (c : UInt8) : Bool :=
  c < 0x21 || c = 0x22 || c = 0x23 || c = 0x25 || c = 0x3c || c = 0x3e || (0x5b ≤ c && c ≤ 0x5e) || c = 0x60 ||
    (0x7b ≤ c && c ≤ 0x7d) || 0x7f ≤ c

/-- `burl_is_unreserved`. -/
def isUnreserved (c : UInt8) : Bool :=
  (48 ≤ c && c ≤ 57) || (65 ≤ c && c ≤ 90) || (97 ≤ c && c ≤ 122) || c = 45 || c = 46 || c = 95 || c = 126

/-- `hex_chars_uc`. -/
def hexCharUc (n : UInt8) : UInt8 := if n < 10 then 48 + n else 55 + n

/-- A byte with a percent sign and two digits. -/
def percentEncode (x : UInt8) : Bytes := [37, hexCharUc (x >>> 4), hexCharUc (x &&& 0xf)]

/-- `li_utf8_invalid_byte`. -/
def utf8InvalidByte (b : UInt8) : Bool := 0xf5 ≤ b || b ||| 1 = 0xc1

/-- Whether `burl_normalize_basic_required` decodes a byte, which depends on whether the query has begun. -/
def decodesRequired (qs : Int) (x : UInt8) : Bool :=
  !encodedReqd x && (if qs < 0 then x != 47 && x != 63 else x != 38 && x != 61 && x != 59)

/-- Whether `burl_normalize_basic_unreserved` decodes a byte. -/
def decodesUnreserved (_ : Int) (x : UInt8) : Bool := isUnreserved x

/-- The loop of `burl_normalize_basic_unreserved_fix` and `burl_normalize_basic_required_fix`, with what has been written so far; `skip`
counts the digits that have been read with their percent sign. -/
def basicFix (decodes : Int → UInt8 → Bool) (out : Bytes) (qs : Int) (skip : Nat) : Bytes → Bytes × Int
  | [] => (out, qs)
  | c :: s =>
    if skip ≠ 0 then basicFix decodes out qs (skip - 1) s
    else if !encodedReqd c then basicFix decodes (out ++ [c]) (if c = 63 ∧ qs = -1 then out.length else qs) 0 s
    else
      match escape (c :: s) with
      | some x =>
        if decodes qs x then basicFix decodes (out ++ [x]) qs 2 s
        else basicFix decodes (out ++ percentEncode x) (if utf8InvalidByte x then -2 else qs) 2 s
      | none =>
        if c = 35 then (out, qs)
        else basicFix decodes (out ++ percentEncode c) (if utf8InvalidByte c then -2 else qs) 0 s

/-- A digit in upper case. -/
def upperHex (c : UInt8) : UInt8 := if 97 ≤ c then c &&& 0xdf else c

/-- The loop of `burl_normalize_basic_unreserved` and `burl_normalize_basic_required`, which goes on as the one above when the URL does
not stay as long as it is. -/
def basicLoop (decodes : Int → UInt8 → Bool) (out : Bytes) (qs : Int) (skip : Nat) : Bytes → Bytes × Int
  | [] => (out, qs)
  | c :: s =>
    if skip ≠ 0 then basicLoop decodes out qs (skip - 1) s
    else if !encodedReqd c then basicLoop decodes (out ++ [c]) (if c = 63 ∧ qs = -1 then out.length else qs) 0 s
    else
      match escape (c :: s) with
      | some x =>
        if decodes qs x then basicFix decodes out qs 0 (c :: s)
        else basicLoop decodes (out ++ ((c :: s).take 3).map upperHex) (if utf8InvalidByte x then -2 else qs) 2 s
      | none => if c = 35 then (out, qs) else basicFix decodes out qs 0 (c :: s)

/-- `burl_normalize_basic_required` or `burl_normalize_basic_unreserved`: the URL after percent-normalisation, and the index. -/
def normalizeBasic (flags : UrlFlags) (url : Bytes) : Bytes × Int :=
  basicLoop (if flags.required then decodesRequired else decodesUnreserved) [] (-1) 0 url

/-- `burl_contains_ctrls`. The comparison is one of signed characters. -/
def containsCtrls : Bytes → Bool
  | [] => false
  | c :: s =>
    (c = 37 && ((s.headD 0).toInt8 < 50 || (s.headD 0 = 55 && s.tail.headD 0 = 70))) || containsCtrls s

/-! ## Slashes and dots -/

/-- A URL in its buffer: its text, the bytes that follow in the buffer, the first of which is the NUL, and `qs`. -/
structure Url where
  text : Bytes
  after : Bytes
  qs : Int

namespace Url

/-- The length of the path according to `qs`. -/
def pathLength (url : Url) : Nat := if url.qs < 0 then url.text.length else url.qs.toNat

end Url

/-- The loop of `burl_normalize_2F_to_slash_fix` and `burl_normalize_qs20_to_plus_fix`: every occurrence of an escape becomes one
character. -/
def replaceEscape (pattern : Bytes) (char : UInt8) (skip : Nat) : Bytes → Bytes
  | [] => []
  | c :: s =>
    if skip ≠ 0 then replaceEscape pattern char (skip - 1) s
    else if pattern <+: c :: s then char :: replaceEscape pattern char 2 s
    else c :: replaceEscape pattern char 0 s

/-- The bytes `%2F`. -/
def slash2f : Bytes := [37, 50, 70]

/-- Every `%2F` becomes a slash. -/
def decode2f : Bytes → Bytes := replaceEscape slash2f 47 0

/-- `burl_normalize_2F_to_slash_fix`, which returns the index that it was given. -/
def toSlashFix (url : Url) : Url :=
  let text := decode2f (url.text.take url.pathLength) ++ url.text.drop url.pathLength
  { url with text := text, after := 0 :: (url.text ++ url.after).drop (text.length + 1) }

/-- `burl_normalize_2F_to_slash`. -/
def toSlash (flags : UrlFlags) (url : Url) : Url :=
  if slash2f <:+: url.text.take url.pathLength then
    if flags.path2fDecode then toSlashFix url else { url with qs := -2 }
  else url

/-- The character after a segment. -/
def isSegmentEnd (s : Bytes) : Bool := s.head? = some 47 || s.head? = some 63 || s.head? = some 0

/-- How many bytes are passed by the test for dots. -/
def dotsLength (s : Bytes) : Nat := if [46, 46] <+: s then 2 else 1

/-- The test for a segment of one or two dots. -/
def isDots (s : Bytes) : Bool := s.head? = some 46 && isSegmentEnd (s.drop (dotsLength s))

/-- The rest of a round of the loop below, which goes to the next slash of the path. -/
def nextSegment (loop : Nat → Bytes → Bool) (n : Nat) (s : Bytes) : Bool :=
  let k := ((s.take n).takeWhile (· ≠ 47)).length
  [47, 47] <+: s.drop k || loop (n - k - 1) (s.drop (k + 1))

/-- The loop of `burl_normalize_path` that looks for a segment to remove, from a place in the buffer on, with `n` bytes of the path left.
It starts at the slash that the path begins with, so that what follows this slash is not looked at. -/
def dotSegment : Nat → Nat → Bytes → Bool
  | 0, _, _ => false
  | _ + 1, 0, _ => false
  | fuel + 1, n + 1, s => isDots s || nextSegment (dotSegment fuel) (n + 1 - dotsLength s) (s.drop (dotsLength s))

/-- `burl_normalize_path`. If the query begins after the end of the URL, the length of it is negative, and the server aborts when it
copies the query. -/
def normalizePath (flags : UrlFlags) (url : Url) : Option Url :=
  if dotSegment url.pathLength url.pathLength (url.text ++ url.after) then
    if flags.pathDotsegReject then some { url with qs := -2 }
    else if url.qs < 0 then some { url with text := pathSimplify url.text, after := [0] }
    else if url.text.length < url.qs.toNat then none
    else
      let path := pathSimplify (url.text.take url.qs.toNat)
      some ⟨path ++ url.text.drop url.qs.toNat, [0], path.length⟩
  else some url

/-! ## The query -/

/-- The bytes `%20`. -/
def space20 : Bytes := [37, 50, 48]

/-- Every `%20` becomes a plus sign. -/
def toPlus : Bytes → Bytes := replaceEscape space20 43 0

/-- `burl_normalize_qs20_to_plus`. If `qs` is not in the URL, the length of the URL is set to `qs + 1`. -/
def qs20ToPlus (url : Url) : Url :=
  if url.qs < 0 then url
  else if url.text.length < url.qs.toNat + 1 then { url with text := (url.text ++ url.after).take (url.qs.toNat + 1) }
  else { url with text := url.text.take (url.qs.toNat + 1) ++ toPlus (url.text.drop (url.qs.toNat + 1)) }

/-- The part of `burl_normalize` after percent-normalisation. -/
def normalizeUrl (flags : UrlFlags) (url : Url) : Option Url :=
  if flags.ctrlsReject && containsCtrls url.text then some { url with qs := -2 }
  else
    let url := if flags.path2fDecode || flags.path2fReject then toSlash flags url else url
    if url.qs = -2 then some url
    else
      match if flags.pathDotsegRemove || flags.pathDotsegReject then normalizePath flags url else some url with
      | none => none
      | some url => if url.qs = -2 then some url else some (if flags.query20Plus then qs20ToPlus url else url)

/-- `burl_normalize`: the URL that is left and the index that is returned, or nothing if the server aborts. -/
def burlNormalize (flags : UrlFlags) (url : Bytes) : Option (Bytes × Int) :=
  let (text, qs) := normalizeBasic flags url
  if qs = -2 then some (text, -2) else (normalizeUrl flags ⟨text, [0], qs⟩).map fun url => (url.text, url.qs)

end Osp.Lighttpd
