import MiddleMan.Library.Transition
import Mathlib.Data.List.Infix

/-!
# Infinite executions and weak fairness

A run is finite, so it cannot say that something happens in the end.  An execution goes on
for ever, and where nothing happens any more its state stays as it is.  An execution is
weakly fair to events of some kind if these are not possible for ever without one of them
happening.

The main rule is `WeaklyFair.eventually`: fairness and a measure which the chosen events
use up lead to the goal.  `WeaklyFair.delivers` is its form for a channel.  Executions and
their fairness carry over to a part of the state, and every finite run which ends where no
chosen event is possible is the beginning of an execution which is fair to them.
-/

namespace Transition

universe u v w x

variable {σ : Type u} {ε : Type v} {τ : Type w} {δ : Type x}

/-- Between two moments one event happens, or none. -/
structure Execution (step : σ → ε → Option σ) where
  state : ℕ → σ
  event : ℕ → Option ε
  runs : ∀ moment, run step (state moment) (event moment).toList = some (state (moment + 1))

/-- Some chosen event can happen in the state. -/
def Enabled (step : σ → ε → Option σ) (chosen : ε → Prop) (state : σ) : Prop :=
  ∃ event, chosen event ∧ (step state event).isSome = true

namespace Execution

variable {step : σ → ε → Option σ} (execution : Execution step)

/-- What happened before the moment. -/
def history : ℕ → List ε
  | 0 => []
  | moment + 1 => history moment ++ (execution.event moment).toList

theorem run_history (moment : ℕ) :
    run step (execution.state 0) (execution.history moment) = some (execution.state moment) := by
  induction moment with
  | zero => rfl
  | succ moment ih =>
      rw [history, run_append, ih, Option.bind_some]
      exact execution.runs moment

variable {execution} {event : ε} {moment : ℕ}

theorem step_eq (happens : execution.event moment = some event) :
    step (execution.state moment) event = some (execution.state (moment + 1)) := by
  have runs := execution.runs moment
  rw [happens] at runs
  simpa using runs

theorem state_succ_of_none (nothing : execution.event moment = none) :
    execution.state (moment + 1) = execution.state moment := by
  have runs := execution.runs moment
  rw [nothing] at runs
  simpa using runs.symm

/-- The events of the history are events of the execution. -/
theorem exists_of_mem_history {moment : ℕ} (event_mem : event ∈ execution.history moment) :
    ∃ earlier, execution.event earlier = some event := by
  induction moment with
  | zero => simp [history] at event_mem
  | succ moment ih =>
      rcases List.mem_append.mp event_mem with old_mem | new_mem
      · exact ih old_mem
      · exact ⟨moment, Option.mem_toList.mp new_mem⟩

/-- What holds at some moment and is kept by the events from then on holds ever after. -/
theorem invariant_from {Inv : σ → Prop} {now : ℕ} (base : Inv (execution.state now))
    (preserved : ∀ moment event, now ≤ moment → execution.event moment = some event →
      Inv (execution.state moment) → Inv (execution.state (moment + 1)))
    {later : ℕ} (le : now ≤ later) : Inv (execution.state later) := by
  induction later, le using Nat.le_induction with
  | base => exact base
  | succ moment le ih =>
      cases happens : execution.event moment with
      | none => rwa [state_succ_of_none happens]
      | some event => exact preserved moment event le happens ih

/-- What is possible at every moment from some moment on also happens. -/
def WeaklyFair (execution : Execution step) (chosen : ε → Prop) : Prop :=
  ∀ now, (∀ moment, now ≤ moment → Enabled step chosen (execution.state moment)) →
    ∃ moment event, now ≤ moment ∧ execution.event moment = some event ∧ chosen event

/--
If, short of the goal, a chosen event is always possible and no event increases a measure
which the chosen events decrease, then a fair execution reaches the goal.
-/
theorem WeaklyFair.eventually {chosen : ε → Prop} (fair : execution.WeaklyFair chosen)
    (Goal : σ → Prop) (measure : σ → ℕ) {now : ℕ}
    (enabled : ∀ moment, now ≤ moment → ¬Goal (execution.state moment) →
      Enabled step chosen (execution.state moment))
    (usesUp : ∀ moment event, now ≤ moment → execution.event moment = some event →
      ¬Goal (execution.state moment) →
        measure (execution.state (moment + 1)) ≤ measure (execution.state moment) ∧
          (chosen event →
            measure (execution.state (moment + 1)) < measure (execution.state moment))) :
    ∃ later, now ≤ later ∧ Goal (execution.state later) := by
  by_contra notReached
  have never : ∀ moment, now ≤ moment → ¬Goal (execution.state moment) := by
    intro moment le goal
    exact notReached ⟨moment, le, goal⟩
  have decreasing : ∀ earlier later, now ≤ earlier → earlier ≤ later →
      measure (execution.state later) ≤ measure (execution.state earlier) := by
    intro earlier later fromNow le
    apply @invariant_from _ _ _ execution
      (fun state => measure state ≤ measure (execution.state earlier)) earlier (le_refl _) _
      later le
    intro moment event fromEarlier happens ih
    have atMoment := fromNow.trans fromEarlier
    exact (usesUp moment event atMoment happens (never moment atMoment)).1.trans ih
  -- from any moment on the measure gets smaller, which cannot go on for ever
  have impossible : ∀ size moment, now ≤ moment → measure (execution.state moment) = size →
      False := by
    intro size
    induction size using Nat.strong_induction_on with
    | h size ih =>
        intro moment fromNow sizeEq
        have possible : ∀ later, moment ≤ later → Enabled step chosen (execution.state later) := by
          intro later le
          exact enabled later (fromNow.trans le) (never later (fromNow.trans le))
        rcases fair moment possible with ⟨later, event, le, happens, isChosen⟩
        have atLater := fromNow.trans le
        have smaller := (usesUp later event atLater happens (never later atLater)).2 isChosen
        have kept := decreasing moment later fromNow le
        refine ih (measure (execution.state (later + 1))) ?_ (later + 1) (by omega) rfl
        omega
  exact impossible _ now (le_refl now) rfl

/--
What goes in at one end comes out at the other: if the output is always the beginning of the
input, and fair steps are possible as long as something of the input is missing in the output,
then the whole input of each moment comes out.  `owed` bounds the steps until the output is of
the given length.
-/
theorem WeaklyFair.delivers {chosen : ε → Prop} (fair : execution.WeaklyFair chosen)
    (input output : σ → List δ) (owed : ℕ → σ → ℕ) {now : ℕ}
    (grows : ∀ moment event, execution.event moment = some event →
      input (execution.state moment) <+: input (execution.state (moment + 1)))
    (isPrefix : ∀ moment, output (execution.state moment) <+: input (execution.state moment))
    (enabled : ∀ moment, now ≤ moment →
      (output (execution.state moment)).length < (input (execution.state moment)).length →
        Enabled step chosen (execution.state moment))
    (usesUp : ∀ moment event count, now ≤ moment → execution.event moment = some event →
      (output (execution.state moment)).length < count →
        owed count (execution.state (moment + 1)) ≤ owed count (execution.state moment) ∧
          (chosen event →
            owed count (execution.state (moment + 1)) < owed count (execution.state moment))) :
    ∃ later, now ≤ later ∧
      input (execution.state now) <+: output (execution.state later) := by
  have keeps : ∀ moment, now ≤ moment →
      input (execution.state now) <+: input (execution.state moment) := by
    intro moment fromNow
    apply @invariant_from _ _ _ execution
      (fun state => input (execution.state now) <+: input state) now List.prefix_rfl _
      moment fromNow
    intro earlier event _ happens ih
    exact ih.trans (grows earlier event happens)
  have arrives : ∃ later, now ≤ later ∧
      (input (execution.state now)).length ≤ (output (execution.state later)).length := by
    apply fair.eventually
      (fun state => (input (execution.state now)).length ≤ (output state).length)
      (owed (input (execution.state now)).length)
    · intro moment fromNow notYet
      apply enabled moment fromNow
      exact (not_le.mp notYet).trans_le (keeps moment fromNow).length_le
    · intro moment event fromNow happens notYet
      exact usesUp moment event _ fromNow happens (not_le.mp notYet)
  rcases arrives with ⟨later, fromNow, longEnough⟩
  refine ⟨later, fromNow, ?_⟩
  exact List.prefix_of_prefix_length_le (keeps later fromNow) (isPrefix later) longEnough

section Projection

variable {abstract : τ → δ → Option τ} (part : σ → τ) (label : ε → List δ)

/-- A part of the state has an execution of its own. -/
def project (execution : Execution step) (atMostOne : ∀ event, (label event).length ≤ 1)
    (projects : ∀ moment event, execution.event moment = some event →
      run abstract (part (execution.state moment)) (label event) =
        some (part (execution.state (moment + 1)))) : Execution abstract where
  state moment := part (execution.state moment)
  event moment := (execution.event moment).bind fun event => (label event).head?
  runs := by
    intro moment
    cases happens : execution.event moment with
    | none => rw [state_succ_of_none happens]; rfl
    | some event =>
        have sameLabel : (label event).head?.toList = label event := by
          have short := atMostOne event
          cases labelEq : label event with
          | nil => rfl
          | cons first rest =>
              rw [labelEq, List.length_cons] at short
              have restEq : rest = [] := List.eq_nil_of_length_eq_zero (by omega)
              subst restEq
              rfl
        rw [Option.bind_some, sameLabel]
        exact projects moment event happens

variable {part} {label} {atMostOne : ∀ event, (label event).length ≤ 1}
  {projects : ∀ moment event, execution.event moment = some event →
    run abstract (part (execution.state moment)) (label event) =
      some (part (execution.state (moment + 1)))}

/-- The events of the part are those of the whole. -/
theorem exists_of_project_event {moment : ℕ} {shown : δ}
    (happens : (execution.project part label atMostOne projects).event moment = some shown) :
    ∃ event, execution.event moment = some event ∧ shown ∈ label event := by
  rcases Option.bind_eq_some_iff.mp happens with ⟨event, eventEq, isHead⟩
  exact ⟨event, eventEq, List.mem_of_mem_head? isHead⟩

/-- Fairness carries over if from some moment on the part cannot do more than the whole. -/
theorem WeaklyFair.project {chosen : ε → Prop} {shownChosen : δ → Prop}
    (fair : execution.WeaklyFair chosen)
    (shows : ∀ event, chosen event → ∃ shown, label event = [shown] ∧ shownChosen shown)
    {now : ℕ}
    (possible : ∀ moment, now ≤ moment →
      Enabled abstract shownChosen (part (execution.state moment)) →
        Enabled step chosen (execution.state moment)) :
    (execution.project part label atMostOne projects).WeaklyFair shownChosen := by
  intro later enabled
  have wholeEnabled : ∀ moment, max later now ≤ moment →
      Enabled step chosen (execution.state moment) := by
    intro moment le
    rcases Nat.max_le.mp le with ⟨fromLater, fromNow⟩
    exact possible moment fromNow (enabled moment fromLater)
  rcases fair _ wholeEnabled with ⟨moment, event, le, happens, isChosen⟩
  rcases shows event isChosen with ⟨shown, labelEq, shownIsChosen⟩
  refine ⟨moment, shown, (Nat.max_le.mp le).1, ?_, shownIsChosen⟩
  simp only [Execution.project, happens, Option.bind_some, labelEq, List.head?_cons]

end Projection

section Finite

variable {start final : σ} {events : List ε}

/-- The state after the first events of a run. -/
theorem exists_run_take (runs : run step start events = some final) (moment : ℕ) :
    ∃ middle, run step start (events.take moment) = some middle ∧
      run step middle (events.drop moment) = some final := by
  rw [← List.take_append_drop moment events] at runs
  exact run_of_append runs

/-- A run after which nothing happens any more. -/
def ofRun (runs : run step start events = some final) : Execution step where
  state moment := (run step start (events.take moment)).getD final
  event moment := events[moment]?
  runs := by
    intro moment
    rcases exists_run_take runs moment with ⟨middle, front, back⟩
    rw [front, Option.getD_some, List.take_add_one, run_append, front, Option.bind_some]
    cases happens : events[moment]? with
    | none => rfl
    | some event =>
        have inside : moment < events.length := (List.getElem?_eq_some_iff.mp happens).1
        rw [List.drop_eq_getElem_cons inside, run_cons] at back
        rcases Option.bind_eq_some_iff.mp back with ⟨next, stepEq, _⟩
        rw [(List.getElem?_eq_some_iff.mp happens).2] at stepEq
        simp [stepEq]

variable {runs : run step start events = some final}

theorem ofRun_state_of_le {moment : ℕ} (le : events.length ≤ moment) :
    (ofRun runs).state moment = final := by
  simp only [ofRun]
  rw [List.take_of_length_le le, runs, Option.getD_some]

/-- After its end a run shows no new states. -/
theorem forall_ofRun_state {Good : σ → Prop}
    (good : ∀ moment, moment ≤ events.length → Good ((ofRun runs).state moment)) (moment : ℕ) :
    Good ((ofRun runs).state moment) := by
  rcases Nat.le_total moment events.length with le | ge
  · exact good moment le
  · rw [ofRun_state_of_le ge, ← @ofRun_state_of_le _ _ _ _ _ _ runs _ (le_refl events.length)]
    exact good events.length (le_refl _)

/-- Every event of the execution is one of the run. -/
theorem mem_of_ofRun_event {moment : ℕ} {event : ε}
    (happens : (ofRun runs).event moment = some event) : event ∈ events :=
  List.mem_of_getElem? happens

theorem weaklyFair_ofRun {chosen : ε → Prop} (blocked : ¬Enabled step chosen final) :
    (ofRun runs).WeaklyFair chosen := by
  intro now enabled
  have atEnd := enabled (max now events.length) (Nat.le_max_left _ _)
  rw [ofRun_state_of_le (Nat.le_max_right _ _)] at atEnd
  exact absurd atEnd blocked

end Finite

end Execution

end Transition
