import Osp.Lib.Libc

/-!
# Paths

`buffer_path_simplify` and `buffer_urldecode_path` of `buffer.c`, for systems where a backslash is not a separator. A buffer is the
string up to its NUL, as both functions stop there.
-/

namespace Osp.Lighttpd

open Osp.Lib

/-! ## Hexadecimal digits -/

/-- `hex2int`; `li_cton` of `burl.c` is the same function. -/
def hex2int (c : UInt8) : Option Nat :=
  if c - 48 ≤ 9 then some (c - 48).toNat
  else if (c &&& 0xdf) - 65 ≤ 5 then some (((c &&& 0xdf) - 65).toNat + 10)
  else none

/-- The byte that a percent sign and two digits stand for. -/
def escape : Bytes → Option UInt8
  | 37 :: high :: low :: _ =>
    match hex2int high, hex2int low with
    | some high, some low => some (UInt8.ofNat (high * 16 + low))
    | _, _ => none
  | _ => none

/-! ## Simplifying -/

/-- What has been written without its last component, which goes back to the last slash. -/
def dropComponent (out : Bytes) : Bytes := ((out.reverse.dropWhile (· ≠ 47)).drop 1).reverse

/-- What has been written after a token, which is a slash and a component. A token ends before a slash or at the end of the path, where
the slash of a token that is not kept stays. As a token has one slash, the tests of its length and its last two characters say whether
it is `/..`, `/.` or `/`. -/
def endToken (out token : Bytes) (atEnd : Bool) : Bytes :=
  if token = [47, 46, 46] then dropComponent out ++ if atEnd then [47] else []
  else if token = [47] ∨ token = [47, 46] then out ++ if atEnd then [47] else []
  else out ++ token

/-- The loop of `buffer_path_simplify`: what has been written, the token that is being read, and the rest of the path. -/
def simplifyLoop (out token : Bytes) : Bytes → Bytes
  | [] => out ++ token
  | c :: src =>
    if src.head? = some 47 ∨ src = [] then simplifyLoop (endToken out (token ++ [c]) (src = [])) [] src
    else simplifyLoop out (token ++ [c]) src

/-- `buffer_path_simplify`. -/
def pathSimplify (src : Bytes) : Bytes :=
  if src = [] then []
  else
    let src := (cString src).dropWhile (· = 32)
    if src.head? = some 47 then simplifyLoop [] [] src else simplifyLoop [] [47] src

/-! ## Decoding -/

/-- The loop of `buffer_urldecode_internal`; `skip` counts the digits that have been read with their percent sign. Control characters
are mapped to an underscore. -/
def urldecodeLoop (isQuery : Bool) (skip : Nat) : Bytes → Bytes
  | [] => []
  | c :: src =>
    if skip ≠ 0 then urldecodeLoop isQuery (skip - 1) src
    else if isQuery ∧ c = 43 then 32 :: urldecodeLoop isQuery 0 src
    else
      match escape (c :: src) with
      | some x => (if x < 32 ∨ x = 127 then 95 else x) :: urldecodeLoop isQuery 2 src
      | none => c :: urldecodeLoop isQuery 0 src

/-- `buffer_urldecode_path`. -/
def urldecodePath (url : Bytes) : Bytes := urldecodeLoop false 0 (cString url)

end Osp.Lighttpd
