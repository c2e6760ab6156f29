import Mathlib.Data.List.Perm.Basic
import Mathlib.Data.List.Nodup

/-!
# Ownership of resources by live objects

A process holds a list of resources, and each live object owns some of them.  The
books are *exact* when the resources held are those of the live objects, each counted
once: nothing is lost when an object dies, and nothing is released twice.

The file states what the birth and the death of an object mean for the books, and how
a resource is found and released by a key which distinguishes the resources held.
-/

namespace Ownership

universe u v w

variable {α : Type u} {ο : Type v} {κ : Type w}

/-- The resources held are exactly those which the live objects own. -/
def Exact (owns : ο → List α) (held : List α) (alive : List ο) : Prop :=
  held.Perm (alive.flatMap owns)

variable {owns : ο → List α} {held : List α} {alive : List ο}

theorem exact_nil : Exact owns [] [] :=
  List.Perm.nil

theorem Exact.owner_of_mem (exact : Exact owns held alive) {resource : α}
    (resource_mem : resource ∈ held) : ∃ object ∈ alive, resource ∈ owns object :=
  List.mem_flatMap.mp (exact.mem_iff.mp resource_mem)

theorem Exact.mem_of_owner (exact : Exact owns held alive) {object : ο}
    (object_mem : object ∈ alive) {resource : α} (owned : resource ∈ owns object) :
    resource ∈ held :=
  exact.mem_iff.mpr (List.mem_flatMap.mpr ⟨object, object_mem, owned⟩)

theorem Exact.acquire (exact : Exact owns held alive) (object : ο) :
    Exact owns (owns object ++ held) (object :: alive) := by
  rw [Exact, List.flatMap_cons]
  exact List.Perm.append_left (owns object) exact

theorem flatMap_perm_of_getElem? {index : ℕ} {object : ο}
    (present : alive[index]? = some object) :
    (alive.flatMap owns).Perm (owns object ++ (alive.eraseIdx index).flatMap owns) := by
  rcases List.getElem?_eq_some_iff.mp present with ⟨inBounds, rfl⟩
  rw [← List.flatMap_cons]
  exact (List.getElem_cons_eraseIdx_perm inBounds).symm.flatMap_right owns

/-- The books stay exact at the death of an object if exactly its resources go with it. -/
theorem Exact.release_iff (exact : Exact owns held alive) {index : ℕ} {object : ο}
    (present : alive[index]? = some object) {rest : List α} :
    Exact owns rest (alive.eraseIdx index) ↔ held.Perm (owns object ++ rest) := by
  have split : held.Perm (owns object ++ (alive.eraseIdx index).flatMap owns) :=
    List.Perm.trans exact (flatMap_perm_of_getElem? present)
  constructor
  · intro restExact
    exact split.trans (List.Perm.append_left (owns object) restExact.symm)
  · intro released
    exact (List.perm_append_left_iff (owns object)).mp (released.symm.trans split)

/-- If nothing is released at its death, the object must have owned nothing. -/
theorem Exact.keep_iff (exact : Exact owns held alive) {index : ℕ} {object : ο}
    (present : alive[index]? = some object) :
    Exact owns held (alive.eraseIdx index) ↔ owns object = [] := by
  rw [exact.release_iff present]
  constructor
  · intro same
    have sameLength := same.length_eq
    rw [List.length_append] at sameLength
    exact List.length_eq_zero_iff.mp (by omega)
  · intro nothing
    rw [nothing]
    exact List.Perm.refl held

/-- A key which distinguishes the resources held finds the one it belongs to. -/
theorem perm_cons_eraseP_key [BEq κ] [LawfulBEq κ] {key : α → κ}
    (distinct : (held.map key).Nodup) {resource : α} (resource_mem : resource ∈ held) :
    held.Perm (resource :: held.eraseP fun other => key other == key resource) := by
  induction held with
  | nil => simp at resource_mem
  | cons head tail ih =>
      rw [List.map_cons, List.nodup_cons] at distinct
      by_cases same : key head = key resource
      · have headEq : resource = head := by
          rcases List.mem_cons.mp resource_mem with isHead | tail_mem
          · exact isHead
          · exact absurd (same ▸ List.mem_map_of_mem tail_mem) distinct.1
        subst head
        rw [List.eraseP_cons_of_pos (by simp)]
      · have tail_mem : resource ∈ tail := by
          rcases List.mem_cons.mp resource_mem with rfl | tail_mem
          · exact absurd rfl same
          · exact tail_mem
        rw [List.eraseP_cons_of_neg (by simpa using same)]
        exact ((ih distinct.2 tail_mem).cons head).trans (List.Perm.swap resource head _)

end Ownership
