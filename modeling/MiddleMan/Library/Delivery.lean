import Mathlib.Data.List.Infix
import MiddleMan.Library.Transition

/-!
# Delivering a stream in order

Two general pieces about a party which works through a stream of items in order.

A *log* lists the items the party is done with, each with the outcome of the call
made for it.  What arrives is the sublist of items whose outcome delivers, and the
question is when this sublist is a prefix of the stream.

`Courier` is the abstract model of a party which never skips an item: its state is
the stream sent so far and the number of items delivered, so its output is a prefix
of what was sent by construction.
-/

universe u v

namespace Delivery

variable {α : Type u} {ρ : Type v}

/-- The items whose outcome delivers, in order. -/
def received (delivers : ρ → Bool) (log : List (α × ρ)) : List α :=
  (log.filter fun entry => delivers entry.2).map Prod.fst

/-- No item is skipped while a later one is delivered. -/
def NoneSkipped (delivers : ρ → Bool) (log : List (α × ρ)) : Prop :=
  log.Pairwise fun earlier later => delivers later.2 = true → delivers earlier.2 = true

variable {delivers : ρ → Bool}

theorem received_cons (entry : α × ρ) (log : List (α × ρ)) :
    received delivers (entry :: log) =
      if delivers entry.2 then entry.1 :: received delivers log else received delivers log := by
  cases outcome : delivers entry.2 <;> simp [received, outcome]

theorem received_eq_of_forall {log : List (α × ρ)}
    (all : ∀ entry ∈ log, delivers entry.2 = true) : received delivers log = log.map Prod.fst := by
  rw [received, List.filter_eq_self.mpr all]

theorem received_eq_nil {log : List (α × ρ)}
    (none : ∀ entry ∈ log, ¬delivers entry.2 = true) : received delivers log = [] := by
  rw [received, List.filter_eq_nil_iff.mpr none, List.map_nil]

/-- Without a skipped item, what arrives is a prefix of the items worked through. -/
theorem received_prefix {log : List (α × ρ)} (noneSkipped : NoneSkipped delivers log) :
    received delivers log <+: log.map Prod.fst := by
  induction log with
  | nil => exact List.prefix_rfl
  | cons entry log ih =>
      rcases List.pairwise_cons.mp noneSkipped with ⟨headFirst, tailNoneSkipped⟩
      rw [received_cons, List.map_cons]
      by_cases delivered : delivers entry.2 = true
      · rw [if_pos delivered, List.prefix_cons_inj]
        exact ih tailNoneSkipped
      · have nothing : received delivers log = [] := by
          apply received_eq_nil
          intro later later_mem laterDelivered
          exact delivered (headFirst later later_mem laterDelivered)
        rw [if_neg delivered, nothing]
        exact List.nil_prefix

end Delivery

/-- The state of an abstract courier: what was sent, and how much of it was delivered. -/
@[ext]
structure Courier (α : Type u) where
  sent : List α
  count : ℕ
  count_le : count ≤ sent.length

namespace Courier

variable {α : Type u}

/-- The source sends items, or the next one is delivered. -/
inductive Event (α : Type u) where
  | send (items : List α)
  | deliver

/-- What has been delivered. -/
def output (courier : Courier α) : List α :=
  courier.sent.take courier.count

/-- Nothing has been sent. -/
def initial : Courier α :=
  ⟨[], 0, Nat.le_refl 0⟩

/-- Sending appends to the stream; delivering hands over the next item, if there is one. -/
def step (courier : Courier α) : Event α → Option (Courier α)
  | .send items =>
      some
        { sent := courier.sent ++ items
          count := courier.count
          count_le := by
            have := courier.count_le
            simp only [List.length_append]
            omega }
  | .deliver =>
      if more : courier.count < courier.sent.length then
        some { courier with count := courier.count + 1, count_le := more }
      else none

/-- What a courier delivered is a prefix of what it was given. -/
theorem output_prefix (courier : Courier α) : courier.output <+: courier.sent :=
  List.take_prefix courier.count courier.sent

theorem step_send (courier : Courier α) (items : List α) :
    ∃ next, courier.step (.send items) = some next ∧ next.sent = courier.sent ++ items ∧
      next.output = courier.output :=
  ⟨_, rfl, rfl, List.take_append_of_le_length courier.count_le⟩

/-- The next item is delivered if the stream continues with it. -/
theorem step_deliver {courier : Courier α} {item : α} {rest : List α}
    (continues : courier.sent = courier.output ++ item :: rest) :
    ∃ next, courier.step .deliver = some next ∧ next.sent = courier.sent ∧
      next.output = courier.output ++ [item] := by
  have outputLength : courier.output.length = courier.count :=
    List.length_take_of_le courier.count_le
  have more : courier.count < courier.sent.length := by
    rw [continues, List.length_append, outputLength, List.length_cons]
    omega
  refine ⟨_, dif_pos more, rfl, ?_⟩
  have nextItem : courier.sent[courier.count] = item := by
    have atEnd : courier.sent[courier.count]? = some item := by
      rw [continues, List.getElem?_append_right (by omega), outputLength, Nat.sub_self]
      rfl
    rwa [List.getElem?_eq_getElem more, Option.some.injEq] at atEnd
  simp only [output]
  rw [← nextItem, List.take_concat_get' _ _ more]

end Courier
