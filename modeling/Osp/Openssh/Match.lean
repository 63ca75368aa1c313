import Osp.Lib.Libc

/-!
# Patterns

`match_pattern` and `match_pattern_list` of `match.c`. A string is the list of its bytes without the NUL at its end.
-/

namespace Osp.Openssh

open Osp.Lib

/-- The loops of `match_pattern` over what is left of the string: whether some byte and what follows it will do. -/
def tryEach (f : UInt8 → Bytes → Bool) : Bytes → Bool
  | [] => false
  | c :: s => f c s || tryEach f s

/-- `match_pattern`, with the pattern first. -/
def matchPattern : Bytes → Bytes → Bool
  | [], s => s.isEmpty
  | c :: pattern, s =>
    if c = 42 then
      match pattern with
      | [] => true
      | d :: pattern' =>
        -- a byte that is no wildcard has to stand where the rest of the string is tried
        if d ≠ 63 ∧ d ≠ 42 then tryEach (fun e s => e = d && matchPattern pattern' s) s
        else tryEach (fun e s => matchPattern (d :: pattern') (e :: s)) s
    else
      match s with
      | [] => false
      | e :: s => if c ≠ 63 ∧ c ≠ e then false else matchPattern pattern s

/-- A subpattern as it is stored in `sub`. -/
def lowered (dolower : Bool) (sub : Bytes) : Bytes := if dolower then sub.map toLower else sub

/-- The loop of `match_pattern_list` over what is left of the list. Every round reads a byte or more. -/
def patternListLoop (string : Bytes) (dolower : Bool) : Nat → Bytes → Bool → Int
  | 0, _, _ => 0
  | fuel + 1, list, gotPositive =>
    match list with
    | [] => if gotPositive then 1 else 0
    | c :: rest =>
      let negated : Bool := c = 33
      let text := if negated then rest else c :: rest
      let sub := (text.takeWhile (· ≠ 44)).take 1023
      if 1023 ≤ sub.length then 0
      else
        let after := match text.drop sub.length with
          | [] => []
          | d :: after => if d = 44 then after else d :: after
        if matchPattern (lowered dolower sub) string then
          if negated then -1 else patternListLoop string dolower fuel after true
        else patternListLoop string dolower fuel after gotPositive

/-- `match_pattern_list`. -/
def matchPatternList (string pattern : Bytes) (dolower : Bool) : Int := patternListLoop string dolower (pattern.length + 1) pattern false

end Osp.Openssh
