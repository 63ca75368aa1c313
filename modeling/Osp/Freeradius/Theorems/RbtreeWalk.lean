import Osp.Freeradius.Rbtree

/-!
# The walks of a red-black tree

The callback is called in the order that is asked for, except that `PostOrder` puts the nodes below the children of the root in order.
-/

namespace Osp.Freeradius

variable {α σ : Type} {callback : σ → α → Int × σ} {t : Rbnode α}

/-! ## The orders -/

namespace Rbnode

def preorder : Rbnode α → List α
  | nil => []
  | node _ left data right => data :: left.preorder ++ right.preorder

def inorder : Rbnode α → List α
  | nil => []
  | node _ left data right => left.inorder ++ [data] ++ right.inorder

def postorder : Rbnode α → List α
  | nil => []
  | node _ left data right => left.postorder ++ right.postorder ++ [data]

def sequence (t : Rbnode α) : RbtreeOrder → List α
  | .preOrder => t.preorder
  | .inOrder => t.inorder
  | .postOrder => t.postorder

def children : Rbnode α → List (Rbnode α)
  | nil => []
  | node _ left _ right => [left, right]

theorem length_inorder (t : Rbnode α) : t.inorder.length = t.postorder.length := by
  induction t with
  | nil => rfl
  | node _ left data right ihl ihr =>
    simp only [inorder, postorder, List.length_append, ihl, ihr]
    omega

end Rbnode

variable (callback) in
/-- A callback on the elements of a list, until it returns another code than zero. -/
def visit : List α → σ → Int × σ
  | [], context => (0, context)
  | data :: rest, context => unlessStopped (callback context data) (visit rest)

/-- A walk calls the callback on every element once, in this order, until it returns another code than zero. -/
def Walks (t : Rbnode α) (order : RbtreeOrder) : Prop :=
  ∀ (σ : Type) (callback : σ → α → Int × σ) (context : σ), rbtreeWalk callback t order context = visit callback (t.sequence order) context

/-! ## Steps -/

theorem unlessStopped_assoc (r : Int × σ) (f g : σ → Int × σ) :
    unlessStopped (unlessStopped r f) g = unlessStopped r fun context => unlessStopped (f context) g := by
  unfold unlessStopped
  by_cases hcode : r.1 ≠ 0
  · simp only [if_pos hcode]
  · simp only [if_neg hcode]

theorem unlessStopped_nil (r : Int × σ) : unlessStopped r (visit callback []) = r := by
  unfold unlessStopped
  split
  · rfl
  · rename_i hcode
    exact Prod.ext (not_not.1 hcode).symm rfl

theorem visit_append (a b : List α) (context : σ) :
    visit callback (a ++ b) context = unlessStopped (visit callback a context) (visit callback b) := by
  induction a generalizing context with
  | nil => rfl
  | cons data a ih =>
    rw [List.cons_append, visit, visit, unlessStopped_assoc]
    exact congrArg _ (funext ih)

theorem visit_singleton (data : α) : visit callback [data] = (callback · data) := funext fun _ => unlessStopped_nil _

theorem walkNodePreOrder_eq (t : Rbnode α) : walkNodePreOrder callback t = visit callback t.preorder := by
  induction t with
  | nil => rfl
  | node _ left data right ihl ihr =>
    funext context
    rw [walkNodePreOrder, ihl, ihr, Rbnode.preorder, visit_append, visit]

theorem walkNodeInOrder_eq (t : Rbnode α) : walkNodeInOrder callback t = visit callback t.inorder := by
  induction t with
  | nil => rfl
  | node _ left data right ihl ihr =>
    funext context
    rw [walkNodeInOrder, ihl, ihr, Rbnode.inorder, visit_append, visit_append, visit_singleton]

theorem walkNodePostOrder_node (color : NodeColor) (left right : Rbnode α) (data : α) :
    walkNodePostOrder callback (.node color left data right) = visit callback (left.inorder ++ right.inorder ++ [data]) := by
  funext context
  rw [walkNodePostOrder, walkNodeInOrder_eq, walkNodeInOrder_eq, visit_append, visit_append, visit_singleton]

/-! ## The walks -/

/-- A callback that writes the elements down. -/
def record (log : List α) (data : α) : Int × List α := (0, log ++ [data])

theorem visit_record (l log : List α) : visit record l log = (0, log ++ l) := by
  induction l generalizing log with
  | nil => rw [List.append_nil]; rfl
  | cons data l ih =>
    have hstep : visit record (data :: l) log = visit record l (log ++ [data]) := rfl
    rw [hstep, ih, List.append_assoc, List.singleton_append]

/-- A walk is right, except that `PostOrder` is right exactly when both children of the root have the same sequence in order and in
post-order. -/
theorem rbtreeWalk_iff (t : Rbnode α) (order : RbtreeOrder) :
    Walks t order ↔ (order = .postOrder → ∀ child ∈ t.children, child.inorder = child.postorder) := by
  cases order with
  | preOrder =>
    refine ⟨fun _ h => (by cases h), fun _ σ callback context => ?_⟩
    exact congrFun (walkNodePreOrder_eq t) context
  | inOrder =>
    refine ⟨fun _ h => (by cases h), fun _ σ callback context => ?_⟩
    exact congrFun (walkNodeInOrder_eq t) context
  | postOrder =>
    cases t with
    | nil => exact ⟨fun _ _ child hmem => (by cases hmem), fun _ σ callback context => rfl⟩
    | node color left data right =>
      constructor
      · intro hwalks _ child hmem
        have hsame := hwalks (List α) record []
        rw [rbtreeWalk, walkNodePostOrder_node, visit_record, visit_record] at hsame
        have hlists : left.inorder ++ right.inorder ++ [data] = left.postorder ++ right.postorder ++ [data] := (Prod.mk.inj hsame).2
        obtain ⟨hleft, hright⟩ := List.append_inj (List.append_cancel_right hlists) left.length_inorder
        rcases List.mem_pair.1 hmem with rfl | rfl
        · exact hleft
        · exact hright
      · intro hsame σ callback context
        have hleft := hsame rfl left (by simp [Rbnode.children])
        have hright := hsame rfl right (by simp [Rbnode.children])
        rw [rbtreeWalk, walkNodePostOrder_node, hleft, hright]
        rfl

/-- The tree after the insertion of four numbers. -/
def fourTree : Rbnode Nat := .node .black (.node .black .nil 1 .nil) 2 (.node .black .nil 3 (.node .red .nil 4 .nil))

theorem rbtreeWalk_postOrder : rbtreeWalk record fourTree .postOrder [] = (0, [1, 3, 4, 2]) ∧ fourTree.sequence .postOrder = [1, 4, 3, 2] ∧
    ¬Walks fourTree .postOrder := by
  refine ⟨rfl, rfl, fun hwalks => ?_⟩
  have hsame := hwalks _ record []
  exact absurd hsame (by decide)

end Osp.Freeradius
