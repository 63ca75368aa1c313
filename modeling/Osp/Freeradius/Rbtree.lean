import Mathlib.Data.List.Basic

/-!
# Red-black trees

The walks of `rbtree.c`.
-/

namespace Osp.Freeradius

inductive NodeColor
  | black
  | red
deriving DecidableEq

/-- What is below a pointer: `NIL`, or a node. -/
inductive Rbnode (α : Type)
  | nil
  | node (color : NodeColor) (left : Rbnode α) (data : α) (right : Rbnode α)

inductive RbtreeOrder
  | preOrder
  | inOrder
  | postOrder
deriving DecidableEq

variable {α σ : Type}

/-- Goes on unless the return code is not zero. -/
def unlessStopped (r : Int × σ) (next : σ → Int × σ) : Int × σ := if r.1 ≠ 0 then r else next r.2

variable (callback : σ → α → Int × σ)

def walkNodePreOrder : Rbnode α → σ → Int × σ
  | .nil, context => (0, context)
  | .node _ left data right, context =>
    unlessStopped (unlessStopped (callback context data) (walkNodePreOrder left)) (walkNodePreOrder right)

def walkNodeInOrder : Rbnode α → σ → Int × σ
  | .nil, context => (0, context)
  | .node _ left data right, context =>
    unlessStopped (unlessStopped (walkNodeInOrder left context) (callback · data)) (walkNodeInOrder right)

/-- The children are walked by `WalkNodeInOrder`. -/
def walkNodePostOrder : Rbnode α → σ → Int × σ
  | .nil, context => (0, context)
  | .node _ left data right, context =>
    unlessStopped (unlessStopped (walkNodeInOrder callback left context) (walkNodeInOrder callback right)) (callback · data)

/-- `rbtree_walk`, with a callback that changes its context only. -/
def rbtreeWalk (root : Rbnode α) : RbtreeOrder → σ → Int × σ
  | .preOrder => walkNodePreOrder callback root
  | .inOrder => walkNodeInOrder callback root
  | .postOrder => walkNodePostOrder callback root

end Osp.Freeradius
