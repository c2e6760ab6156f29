import Mathlib.Data.List.Infix

/-!
# Runs of partial transition functions

A system is given by a partial step function: `step state event` is the successor
state when `event` is enabled in `state`, and `none` otherwise.  The events carry
the nondeterminism (which party moves, what the environment answers), so a finite
schedule of events determines the run.

The file collects the rules by which facts about one step become facts about whole
runs: invariants, invariants which also speak about the history of events, what the
steps of a run show, and forward simulations.  The last section compares a property of
the states visited by a run with a condition on the steps it takes.
-/

namespace Transition

universe u v w x

variable {σ : Type u} {ε : Type v} {τ : Type w} {δ : Type x}

/-- The state reached by a finite schedule of events, if all of them are enabled. -/
def run (step : σ → ε → Option σ) : σ → List ε → Option σ
  | state, [] => some state
  | state, event :: events => (step state event).bind fun next => run step next events

section Runs

variable {step : σ → ε → Option σ}

@[simp]
theorem run_nil (state : σ) : run step state [] = some state :=
  rfl

@[simp]
theorem run_cons (state : σ) (event : ε) (events : List ε) :
    run step state (event :: events) =
      (step state event).bind fun next => run step next events :=
  rfl

/-- A schedule can be cut anywhere: run the front part, then the back part. -/
theorem run_append (state : σ) (front back : List ε) :
    run step state (front ++ back) =
      (run step state front).bind fun middle => run step middle back := by
  induction front generalizing state with
  | nil => rfl
  | cons event events ih =>
      simp only [List.cons_append, run_cons]
      cases stepEq : step state event with
      | none => rfl
      | some next => simpa using ih next

theorem run_concat_iff {state final : σ} {events : List ε} {event : ε} :
    run step state (events ++ [event]) = some final ↔
      ∃ middle, run step state events = some middle ∧ step middle event = some final := by
  rw [run_append, Option.bind_eq_some_iff]
  simp

theorem run_of_append {state final : σ} {front back : List ε}
    (runs : run step state (front ++ back) = some final) :
    ∃ middle, run step state front = some middle ∧ run step middle back = some final := by
  rwa [run_append, Option.bind_eq_some_iff] at runs

/--
An invariant of the state together with the history of events: it holds of the
empty history, and every step extends it.
-/
theorem history_invariant (Inv : List ε → σ → Prop) {start : σ} (base : Inv [] start)
    (preserved : ∀ history state event next, Inv history state →
      step state event = some next → Inv (history ++ [event]) next)
    {events : List ε} {final : σ} (runs : run step start events = some final) :
    Inv events final := by
  induction events using List.reverseRecOn generalizing final with
  | nil =>
      simp only [run_nil, Option.some.injEq] at runs
      subst final
      exact base
  | append_singleton events event ih =>
      rcases run_concat_iff.mp runs with ⟨middle, front, last⟩
      exact preserved events middle event final (ih front) last

/-- The same for runs of allowed events only. -/
theorem history_invariant_of_allowed (Allowed : ε → Prop) (Inv : List ε → σ → Prop) {start : σ}
    (base : Inv [] start)
    (preserved : ∀ history state event next, Inv history state → Allowed event →
      step state event = some next → Inv (history ++ [event]) next)
    {events : List ε} {final : σ} (runs : run step start events = some final)
    (allowed : ∀ event ∈ events, Allowed event) : Inv events final := by
  refine history_invariant (fun history state =>
    (∀ event ∈ history, Allowed event) → Inv history state) (fun _ => base) ?_ runs allowed
  intro history state event next known stepEq historyAllowed
  have before : ∀ earlier ∈ history, Allowed earlier := by
    intro earlier earlier_mem
    exact historyAllowed earlier (List.mem_append_left _ earlier_mem)
  exact preserved history state event next (known before) (historyAllowed event (by simp)) stepEq

/-- What the steps of a run show, where that depends on the state before the step. -/
def observed (step : σ → ε → Option σ) (shows : σ → ε → List δ) : σ → List ε → List δ
  | _, [] => []
  | state, event :: events =>
      shows state event ++ (step state event).elim [] fun next => observed step shows next events

theorem observed_concat (shows : σ → ε → List δ) {start middle : σ} {events : List ε}
    (runs : run step start events = some middle) (event : ε) :
    observed step shows start (events ++ [event]) =
      observed step shows start events ++ shows middle event := by
  induction events generalizing start with
  | nil =>
      simp only [run_nil, Option.some.injEq] at runs
      subst middle
      rw [List.nil_append, observed, observed, List.nil_append]
      cases step start event <;> simp [observed]
  | cons first events ih =>
      rcases Option.bind_eq_some_iff.mp runs with ⟨next, stepEq, rest⟩
      simp only [List.cons_append, observed, stepEq, Option.elim_some]
      rw [ih rest, List.append_assoc]

/-- A property preserved by every allowed step holds at the end of an allowed run. -/
theorem invariant_of_allowed (Allowed : ε → Prop) {start : σ} {Inv : σ → Prop}
    (base : Inv start)
    (preserved : ∀ state event next, Inv state → Allowed event →
      step state event = some next → Inv next)
    {events : List ε} {final : σ} (runs : run step start events = some final)
    (allowed : ∀ event ∈ events, Allowed event) : Inv final := by
  induction events generalizing start with
  | nil =>
      simp only [run_nil, Option.some.injEq] at runs
      subst final
      exact base
  | cons event events ih =>
      rcases Option.bind_eq_some_iff.mp runs with ⟨next, stepEq, rest⟩
      refine ih (preserved start event next base (allowed event (by simp)) stepEq) rest ?_
      intro later later_mem
      exact allowed later (List.mem_cons_of_mem event later_mem)

theorem invariant {start : σ} {Inv : σ → Prop} (base : Inv start)
    (preserved : ∀ state event next, Inv state → step state event = some next → Inv next)
    {events : List ε} {final : σ} (runs : run step start events = some final) : Inv final :=
  invariant_of_allowed (fun _ => True) base
    (fun state event next holds _ => preserved state event next holds) runs (by simp)

/-- The step at which an event of the run happens, with the run before and after it. -/
theorem step_of_mem {start final : σ} {events : List ε}
    (runs : run step start events = some final) {event : ε} (event_mem : event ∈ events) :
    ∃ front back before after, events = front ++ event :: back ∧
      run step start front = some before ∧ step before event = some after ∧
        run step after back = some final := by
  rcases List.append_of_mem event_mem with ⟨front, back, rfl⟩
  rcases run_of_append runs with ⟨before, frontRuns, suffixRuns⟩
  rcases Option.bind_eq_some_iff.mp suffixRuns with ⟨after, stepEq, backRuns⟩
  exact ⟨front, back, before, after, rfl, frontRuns, stepEq, backRuns⟩

/--
Once some event of the run establishes a property which every step preserves, the
property holds at the end.  The event may rely on an invariant `Base` of all runs.
-/
theorem established (Trigger : ε → Prop) {start : σ} {Base Inv : σ → Prop} (base : Base start)
    (basePreserved : ∀ state event next, Base state → step state event = some next → Base next)
    (establishes : ∀ state event next, Base state → Trigger event →
      step state event = some next → Inv next)
    (preserved : ∀ state event next, Inv state → step state event = some next → Inv next)
    {events : List ε} {final : σ} (runs : run step start events = some final)
    {event : ε} (event_mem : event ∈ events) (trigger : Trigger event) : Inv final := by
  rcases step_of_mem runs event_mem with
    ⟨_, _, before, after, _, frontRuns, stepEq, backRuns⟩
  have beforeBase : Base before := invariant base basePreserved frontRuns
  exact invariant (establishes before event after beforeBase trigger stepEq) preserved backRuns

/--
If, under an invariant, a step makes a property hold exactly by certain events and never
undoes it, then the property holds after a run exactly if one of these events occurred.
-/
theorem iff_event_of_run (Inv P : σ → Prop) (Cond : ε → Prop)
    (preserved : ∀ state event next, Inv state → step state event = some next → Inv next)
    (exact : ∀ state event next, Inv state → step state event = some next →
      (P next ↔ P state ∨ Cond event))
    {start : σ} (inv : Inv start) (fails : ¬P start) {events : List ε} {final : σ}
    (runs : run step start events = some final) : P final ↔ ∃ event ∈ events, Cond event := by
  have both : Inv final ∧ (P final ↔ ∃ event ∈ events, Cond event) := by
    refine history_invariant
      (fun history state => Inv state ∧ (P state ↔ ∃ event ∈ history, Cond event))
      ⟨inv, by simp [fails]⟩ ?_ runs
    rintro history state event next ⟨stateInv, ih⟩ stepEq
    refine ⟨preserved state event next stateInv stepEq, ?_⟩
    rw [exact state event next stateInv stepEq, ih]
    simp [or_and_right, exists_or]
  exact both.2

end Runs

section Simulation

variable {concrete : σ → ε → Option σ} {abstract : τ → δ → Option τ}

/--
Forward simulation.  Each allowed concrete step is matched by the abstract events
`label` assigns to it (none for an internal step), so a run is matched by the
concatenation of these.
-/
theorem run_simulates (Allowed : ε → Prop) {Related : σ → τ → Prop} {label : ε → List δ}
    (simulates : ∀ state spec event next, Related state spec → Allowed event →
      concrete state event = some next →
        ∃ specNext, run abstract spec (label event) = some specNext ∧ Related next specNext)
    {start final : σ} {spec : τ} (related : Related start spec) {events : List ε}
    (runs : run concrete start events = some final)
    (allowed : ∀ event ∈ events, Allowed event) :
    ∃ specFinal, run abstract spec (events.flatMap label) = some specFinal ∧
      Related final specFinal := by
  induction events generalizing start spec with
  | nil =>
      simp only [run_nil, Option.some.injEq] at runs
      subst final
      exact ⟨spec, rfl, related⟩
  | cons event events ih =>
      rcases Option.bind_eq_some_iff.mp runs with ⟨next, stepEq, rest⟩
      rcases simulates start spec event next related (allowed event (by simp)) stepEq with
        ⟨specNext, specRuns, nextRelated⟩
      have restAllowed : ∀ later ∈ events, Allowed later := by
        intro later later_mem
        exact allowed later (List.mem_cons_of_mem event later_mem)
      rcases ih nextRelated rest restAllowed with ⟨specFinal, specRest, finalRelated⟩
      refine ⟨specFinal, ?_, finalRelated⟩
      rw [List.flatMap_cons, run_append, specRuns]
      exact specRest

/-- A part of the state which goes through a run of its own. -/
theorem run_projects (project : σ → τ) {label : ε → List δ}
    (projects : ∀ state event next, concrete state event = some next →
      run abstract (project state) (label event) = some (project next))
    {start final : σ} {events : List ε} (runs : run concrete start events = some final) :
    run abstract (project start) (events.flatMap label) = some (project final) := by
  have simulates : ∀ state spec event next, project state = spec → True →
      concrete state event = some next →
        ∃ specNext, run abstract spec (label event) = some specNext ∧
          project next = specNext := by
    rintro state _ event next rfl _ stepEq
    exact ⟨project next, projects state event next stepEq, rfl⟩
  rcases run_simulates (fun _ => True) simulates rfl runs (by simp) with ⟨_, specRuns, rfl⟩
  exact specRuns

end Simulation

section Along

variable {step : σ → ε → Option σ}

/-- Every state the schedule visits, the first one included, has the property. -/
def EveryState (step : σ → ε → Option σ) (Good : σ → Prop) : σ → List ε → Prop
  | state, [] => Good state
  | state, event :: events =>
      Good state ∧ ∀ next, step state event = some next → EveryState step Good next events

/-- Every step the schedule takes meets a condition on the state before it and the event. -/
def EveryStep (step : σ → ε → Option σ) (Cond : σ → ε → Prop) : σ → List ε → Prop
  | _, [] => True
  | state, event :: events =>
      Cond state event ∧ ∀ next, step state event = some next → EveryStep step Cond next events

theorem EveryState.head {Good : σ → Prop} {state : σ} {events : List ε}
    (every : EveryState step Good state events) : Good state := by
  cases events with
  | nil => exact every
  | cons event events => exact every.1

/--
If, under an invariant, a step out of a good state ends in a good state exactly when
it meets the condition, then a run visits good states only exactly when all its steps
meet the condition.
-/
theorem everyState_iff_everyStep (Inv : σ → Prop) {Good : σ → Prop} {Cond : σ → ε → Prop}
    (preserved : ∀ state event next, Inv state → step state event = some next → Inv next)
    (exact : ∀ state event next, Inv state → Good state → step state event = some next →
      (Good next ↔ Cond state event))
    {start final : σ} (inv : Inv start) (good : Good start) {events : List ε}
    (runs : run step start events = some final) :
    EveryState step Good start events ↔ EveryStep step Cond start events := by
  -- the invariant and the good state are carried along the schedule
  induction events generalizing start with
  | nil => exact iff_of_true good trivial
  | cons event events ih =>
      rcases Option.bind_eq_some_iff.mp runs with ⟨next, stepEq, rest⟩
      have nextInv := preserved start event next inv stepEq
      have nextExact := exact start event next inv good stepEq
      simp only [EveryState, EveryStep]
      constructor
      · rintro ⟨_, every⟩
        have nextGood := (every next stepEq).head
        refine ⟨nextExact.mp nextGood, ?_⟩
        intro other otherEq
        obtain rfl : next = other := Option.some.inj (stepEq.symm.trans otherEq)
        exact (ih nextInv nextGood rest).mp (every next stepEq)
      · rintro ⟨cond, every⟩
        refine ⟨good, ?_⟩
        intro other otherEq
        obtain rfl : next = other := Option.some.inj (stepEq.symm.trans otherEq)
        exact (ih nextInv (nextExact.mpr cond) rest).mpr (every next stepEq)

/-- A condition on events alone holds along a run exactly when it holds of each of them. -/
theorem everyStep_event_iff {Cond : ε → Prop} {start final : σ} {events : List ε}
    (runs : run step start events = some final) :
    EveryStep step (fun _ event => Cond event) start events ↔ ∀ event ∈ events, Cond event := by
  induction events generalizing start with
  | nil => simp [EveryStep]
  | cons event events ih =>
      rcases Option.bind_eq_some_iff.mp runs with ⟨next, stepEq, rest⟩
      simp only [EveryStep, List.forall_mem_cons, stepEq, Option.some.injEq]
      apply and_congr_right
      intro _
      constructor
      · intro every
        exact (ih rest).mp (every next rfl)
      · rintro every other rfl
        exact (ih rest).mpr every

end Along

end Transition
