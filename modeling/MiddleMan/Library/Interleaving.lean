import Mathlib.Data.List.Perm.Basic

/-!
# Interleavings of two sequences

`Interleaves left right whole` says that `whole` is made of the items of `left` and the
items of `right`, each in its own order.  This is what a log looks like in which two
parties write their entries at moments of their own choice.
-/

universe u

/-- The items of `left` and of `right`, each in their order, make up `whole`. -/
inductive Interleaves {α : Type u} : List α → List α → List α → Prop where
  | nil : Interleaves [] [] []
  | left (item : α) {left right whole : List α} (rest : Interleaves left right whole) :
      Interleaves (item :: left) right (item :: whole)
  | right (item : α) {left right whole : List α} (rest : Interleaves left right whole) :
      Interleaves left (item :: right) (item :: whole)

namespace Interleaves

variable {α : Type u} {left right whole : List α}

theorem symm (interleaves : Interleaves left right whole) : Interleaves right left whole := by
  induction interleaves with
  | nil => exact nil
  | left item _ ih => exact Interleaves.right item ih
  | right item _ ih => exact Interleaves.left item ih

/-- One party alone. -/
theorem alone (items : List α) : Interleaves items [] items := by
  induction items with
  | nil => exact nil
  | cons item items ih => exact Interleaves.left item ih

/-- The left party goes on. -/
theorem append_left (interleaves : Interleaves left right whole) (items : List α) :
    Interleaves (left ++ items) right (whole ++ items) := by
  induction interleaves with
  | nil => exact alone items
  | left item _ ih => exact Interleaves.left item ih
  | right item _ ih => exact Interleaves.right item ih

theorem perm (interleaves : Interleaves left right whole) : whole.Perm (left ++ right) := by
  induction interleaves with
  | nil => exact List.Perm.nil
  | left item _ ih => exact ih.cons item
  | right item _ ih => exact (ih.cons item).trans List.perm_middle.symm

end Interleaves
