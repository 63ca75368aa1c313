import Osp.Lib.Bytes

/-!
# Moving pairs from list to list

`pairmove` of `valuepair.c`. A list is the nodes that are reached from its head through `next`, in this order.
-/

namespace Osp.Freeradius

/-- The operators, `FR_TOKEN`. Any other token is treated like `+=`. -/
inductive FrToken where
  | add | sub | set | eq | ne | ge | gt | le | lt | cmpTrue | cmpFalse | cmpEq | other
deriving DecidableEq

/-- A node of a list of `VALUE_PAIR`s: where it is in memory, what `pairmove` reads of it, with its data read as a string, and the rest. -/
structure PairNode (δ : Type) where
  place : Nat
  attr : Nat
  operator : FrToken
  strvalue : Bytes
  rest : δ
deriving DecidableEq

variable {δ : Type}

namespace PairNode

/-- `PW_USER_PASSWORD` and `PW_CRYPT_PASSWORD`. -/
def isPassword (i : PairNode δ) : Bool := i.attr = 2 || i.attr = 1006

/-- The operators of check items, which are not moved. -/
def compares (i : PairNode δ) : Bool := i.operator ∈ [.ne, .ge, .gt, .le, .lt, .cmpTrue, .cmpFalse, .cmpEq]

/-- Any number of `PW_HINT` and `PW_FRAMED_ROUTE` may be in a list. The exception of the source for `PW_FALL_THROUGH` changes nothing. -/
def repeats (i : PairNode δ) : Bool := !(i.attr = 500 || (i.attr ≠ 1040 && i.attr ≠ 22))

end PairNode

/-- `pairfind`. -/
def pairfind (l : List (PairNode δ)) (attr : Nat) : Option (PairNode δ) := l.find? (·.attr = attr)

/-- `pairdelete`. -/
def pairdelete (l : List (PairNode δ)) (attr : Nat) : List (PairNode δ) := l.filter (·.attr ≠ attr)

/-- `:=` with a match: the node that was found stays where it is and becomes a copy, the other matches are deleted. -/
def overwrite (i : PairNode δ) : List (PairNode δ) → List (PairNode δ)
  | [] => []
  | found :: l =>
    if found.attr = i.attr then { i with place := found.place } :: pairdelete l i.attr else found :: overwrite i l

/-- What happens to a node: `tailfrom` is set to it, it is copied and `tailfrom` is left as it is, or it is moved. -/
inductive Fate where
  | stays | copied | moved
deriving DecidableEq

/-- The body of the loop of `pairmove`: what happens to a node, and the list `to` after it. -/
def moveOne (hasPassword : Bool) (target : List (PairNode δ)) (i : PairNode δ) : Fate × List (PairNode δ) :=
  if hasPassword && i.isPassword then (.stays, target)
  else if i.compares then (.stays, target)
  else if i.repeats then (.moved, target ++ [i])
  else
    match i.operator, pairfind target i.attr with
    | .sub, some found =>
      (.stays, if i.strvalue = [] ∨ found.strvalue = i.strvalue then pairdelete target found.attr else target)
    | .sub, none => (.stays, target)
    | .eq, some _ => (.stays, target)
    | .set, some _ => (.copied, overwrite i target)
    | _, _ => (.moved, target ++ [i])

/-- The lists during the loop: `to`, and of the nodes of `from` that were gone over the ones up to `tailfrom` and the ones behind it. -/
structure Moving (δ : Type) where
  target : List (PairNode δ)
  front : List (PairNode δ)
  passed : List (PairNode δ)

/-- A pass of the loop. When a node is moved, `tailfrom->next` is set to the node behind it. -/
def Moving.next (hasPassword : Bool) (m : Moving δ) (i : PairNode δ) : Moving δ :=
  match moveOne hasPassword m.target i with
  | (.stays, target) => ⟨target, m.front ++ m.passed ++ [i], []⟩
  | (.copied, target) => ⟨target, m.front, m.passed ++ [i]⟩
  | (.moved, target) => ⟨target, m.front, []⟩

/-- `pairmove`: the lists `to` and `from` after it. -/
def pairmove (target source : List (PairNode δ)) : List (PairNode δ) × List (PairNode δ) :=
  let m := source.foldl (Moving.next (target.any PairNode.isPassword)) ⟨target, [], []⟩
  (m.target, m.front ++ m.passed)

end Osp.Freeradius
