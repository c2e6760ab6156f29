import MiddleMan.Outcome
import MiddleMan.TwoRelays
import MiddleMan.Session

/-!
# The Python module `InteractiveTerminalPipe`

The module exposes the class `InteractiveTerminal` with its methods `InjectInput` and
`StartMiddleMan`.  The wrappers keep the interpreter lock, so the calls of a Python program
come one after the other; only the user's keystrokes come at any moment.

A session is such a sequence of calls.  `StartMiddleMan` comes back only if it failed, and
then it has injected nothing and left no reader behind.  So the text the session's own
`InjectInput` calls deliver is never mixed with a relay's.  What a session collects are
descriptors and handles, for each call which threw.

Of a child made by a call which threw nothing is followed beyond the end of that call.
-/

namespace MiddleMan

namespace System

variable {platform : Platform} {base : HandleTable} {others : List Child}
  {system next : System}

/-! ## Runs in which the host's reader has not started -/

/-- Nobody has touched the stream as long as the host has no reader. -/
structure Untouched (system : System) : Prop where
  silent : system.ForkedSilent
  calls_eq : system.host.reader = none → system.channel.calls = []

theorem untouched_entering (base : HandleTable) (others : List Child) :
    (entering base others).Untouched :=
  ⟨by simp [ForkedSilent, entering], fun _ => rfl⟩

theorem Step.untouched {event : Event} (step : Step platform system event next)
    (noReturn : ¬event.ExecReturned) (untouched : system.Untouched) : next.Untouched := by
  refine ⟨step.forkedSilent noReturn untouched.silent, ?_⟩
  cases step with
  | hostMain call process mainStep =>
      rw [afterHost_channel, afterHost_host]
      intro noReader
      apply untouched.calls_eq
      rcases mainStep.reader_eq with unchanged | ⟨buffer, _, _, started⟩
      · rw [← unchanged, noReader]
      · simp [started] at noReader
  | reader who call process reader readerNext channel present running hasReader readerStep =>
      cases who with
      | host => simp [setProcess]
      | forked =>
          rw [(untouched.silent process present).1] at hasReader
          simp at hasReader
  | forkedMain call process processNext present mainStep =>
      rcases system.afterForked_host processNext call with ⟨children, hostEq⟩
      rw [afterForked_channel, hostEq]
      exact untouched.calls_eq
  | programExit running =>
      rcases reportExit_host { system with program := .exited } with ⟨children, hostEq⟩
      rw [reportExit_channel, hostEq]
      exact untouched.calls_eq
  | write bytes => exact untouched.calls_eq
  | keystroke key => exact untouched.calls_eq
  | childExit pid other => exact untouched.calls_eq
  | childReaped pid onLinux exited => exact untouched.calls_eq

/-- A call which comes back has injected nothing. -/
theorem injectedChars_eq_nil_of_left {events : List Event} {final : System}
    (runs : Transition.run (step platform) (entering base others) events = some final)
    (noReturn : ∀ event ∈ events, ¬event.ExecReturned) {exit : Exit}
    (back : final.host.main = .left exit) : injectedChars final.channel.queue = [] := by
  have untouched : final.Untouched :=
    Transition.invariant_of_allowed (fun event => ¬event.ExecReturned)
      (untouched_entering base others)
      (fun _ _ _ untouched eventNoReturn stepEq =>
        (step_sound stepEq).untouched eventNoReturn untouched)
      runs noReturn
  have wellFormed := (wellFormed_of_run runs).1
  simp only [Process.WellFormed, back] at wellFormed
  rw [(consistent_of_run runs).injectedChars_eq, untouched.calls_eq wellFormed.1]
  rfl

end System

/-! ## Sessions -/

/-- The interpreter process, and the terminal it runs in. -/
structure Interpreter where
  queue : List TermInput
  table : HandleTable
  children : List Child
  /-- How the calls of `StartMiddleMan` came back, the last one first. -/
  results : List Exit
  /-- A call of `StartMiddleMan` ended in `std::terminate`. -/
  aborted : Bool

namespace Interpreter

/-- A key the user presses, or a call from Python. -/
inductive Call where
  | keystroke (key : Byte)
  /-- `InjectInput`: the characters of the text, with what the calls for them returned. -/
  | injectInput (calls : List (Byte × InjectReturn))
  /-- `StartMiddleMan`, with what happened in the system while it ran. -/
  | startMiddleMan (events : List System.Event)

/-- The interpreter before the first call; it may have children already. -/
def start (children : List Child) : Interpreter :=
  { queue := []
    table := []
    children := children
    results := []
    aborted := false }

/-- The interpreter after `StartMiddleMan`, by the state in which the call ended. -/
def afterCall (interpreter : Interpreter) (final : System) : Option Interpreter :=
  match final.host.main with
  | .left exit =>
      some
        { queue := interpreter.queue ++ final.channel.queue
          table := final.host.table
          children := final.host.children
          results := exit :: interpreter.results
          aborted := false }
  | .dead =>
      some
        { interpreter with
          queue := interpreter.queue ++ final.channel.queue
          aborted := true }
  | _ => none

/-- One call, from its beginning to its end. -/
def step (platform : Platform) (interpreter : Interpreter) : Call → Option Interpreter
  | .keystroke key => some { interpreter with queue := interpreter.queue ++ [.typed key] }
  | .injectInput calls =>
      if interpreter.aborted = false ∧ ∀ call ∈ calls, call.2.Possible platform then
        some { interpreter with queue := interpreter.queue ++ injectInput calls }
      else none
  | .startMiddleMan events =>
      if interpreter.aborted then none
      else
        (Transition.run (System.step platform)
          (System.entering interpreter.table interpreter.children) events).bind
            interpreter.afterCall

/-- The text of an `InjectInput` call, as far as its injections delivered. -/
def Call.injected : Call → List Byte
  | .injectInput calls => Delivery.received InjectReturn.delivers calls
  | .keystroke _ | .startMiddleMan _ => []

/-- The keys pressed meanwhile. -/
def Call.keys : Call → List Byte
  | .keystroke key => [key]
  | .injectInput _ => []
  | .startMiddleMan events => events.filterMap System.Event.key?

/-- The program could not be executed in this call. -/
def Call.ExecReturned : Call → Prop
  | .startMiddleMan events => ∃ event ∈ events, event.ExecReturned
  | .keystroke _ | .injectInput _ => False

/-- What a call which has come back has left in the table. -/
def Call.leaks (platform : Platform) : Call → List Resource
  | .startMiddleMan events =>
      (events.filterMap System.Event.hostCall?).flatMap (MainCall.leaks platform)
  | .keystroke _ | .injectInput _ => []

/-- How much the calls which threw can have left there. -/
def Leaks (platform : Platform) (table : HandleTable) (threw : ℕ) : Prop :=
  match platform with
  | .linux => table.length = threw ∧ ∀ resource ∈ table, resource.kind = .pipeReadEnd
  | .windows => table.length ≤ 2 * threw ∧ ∀ resource ∈ table, resource.kind ≠ .pipeReadEnd

/-- The state of a session after `calls`. -/
structure SessionBooks (platform : Platform) (calls : List Call) (interpreter : Interpreter) :
    Prop where
  valid : ∀ resource ∈ interpreter.table, 0 ≤ resource.value
  leaks : Leaks platform interpreter.table (interpreter.results.count .threw)
  table_eq : interpreter.aborted = false →
    interpreter.table = calls.reverse.flatMap (Call.leaks platform)
  results_eq : ∀ exit ∈ interpreter.results, exit = .returned 1 ∨ exit = .threw
  typed_eq : typedKeys interpreter.queue = calls.flatMap Call.keys
  injected_eq : interpreter.aborted = false →
    injectedChars interpreter.queue = calls.flatMap Call.injected

theorem sessionBooks_start (platform : Platform) (children : List Child) :
    SessionBooks platform [] (start children) where
  valid := by simp [start]
  leaks := by cases platform <;> simp [Leaks, start]
  table_eq := fun _ => rfl
  results_eq := by simp [start]
  typed_eq := rfl
  injected_eq := fun _ => rfl

variable {platform : Platform}

/-- The handles of a created process and the leaked end of a pipe are one call's leaks. -/
theorem Leaks.threw {descriptor : ℤ} {created : Option (ℤ × ℤ)} {base : HandleTable}
    {count : ℕ} (leaks : Leaks platform base count) (opens : descriptor ≠ invalidHandle)
    (onLinux : platform = .linux → created = none) :
    Leaks platform
      (GeneralProcess.resources created ++ GeneralPipe.leaked platform descriptor ++ base)
      (count + 1) := by
  cases platform with
  | linux =>
      simp only [Leaks] at leaks ⊢
      simp only [onLinux rfl, GeneralProcess.resources, GeneralPipe.leaked, GeneralPipe.resources,
        if_neg opens, List.nil_append, List.cons_append, List.length_cons, leaks.1,
        List.forall_mem_cons]
      exact ⟨trivial, rfl, leaks.2⟩
  | windows =>
      simp only [Leaks] at leaks ⊢
      rcases created with _ | ⟨hProcess, hThread⟩
      · simp only [GeneralProcess.resources, GeneralPipe.leaked, List.append_nil,
          List.nil_append]
        exact ⟨by omega, leaks.2⟩
      · simp only [GeneralProcess.resources, GeneralPipe.leaked, List.append_nil,
          List.cons_append, List.nil_append, List.length_cons, List.forall_mem_cons]
        exact ⟨by omega, by simp, by simp, leaks.2⟩

theorem Leaks.afterCall {interpreter : Interpreter} {calls : List Call}
    (books : SessionBooks platform calls interpreter) {events : List System.Event}
    {final : System}
    (runs : Transition.run (System.step platform)
      (System.entering interpreter.table interpreter.children) events = some final)
    {exit : Exit} (back : final.host.main = .left exit) :
    (exit = .returned 1 ∨ exit = .threw) ∧
      (∀ resource ∈ final.host.table, 0 ≤ resource.value) ∧
        Leaks platform final.host.table ((exit :: interpreter.results).count .threw) ∧
          final.host.table =
            Call.leaks platform (.startMiddleMan events) ++ interpreter.table := by
  rcases System.opened_of_run books.valid runs with ⟨descriptor, created, opened⟩
  have leaked : final.host.table =
      Call.leaks platform (.startMiddleMan events) ++ interpreter.table :=
    opened.table_of_left back
  rcases opened.left_cases (System.wellFormed_of_run runs).1 back with
    ⟨rfl, _, unchanged⟩ | ⟨rfl, _, opens, _, tableEq⟩
  · refine ⟨Or.inl rfl, ?_, ?_, leaked⟩
    · rw [unchanged]
      exact books.valid
    · rw [unchanged]
      simpa using books.leaks
  · refine ⟨Or.inr rfl, ?_, ?_, leaked⟩
    · intro resource resource_mem
      rw [tableEq, List.mem_append, List.mem_append] at resource_mem
      rcases resource_mem with (isHandle | isEnd) | old_mem
      · exact opened.nonneg resource isHandle
      · rcases opened.valid with failed | ⟨nonneg, _⟩
        · exact absurd failed opens
        · cases platform with
          | windows => simp [GeneralPipe.leaked] at isEnd
          | linux =>
              simp only [GeneralPipe.leaked, GeneralPipe.resources, if_neg opens,
                List.mem_singleton] at isEnd
              subst resource
              exact nonneg
      · exact books.valid resource old_mem
    · rw [tableEq, List.count_cons_self]
      exact books.leaks.threw opens opened.onLinux

theorem SessionBooks.concat {interpreter next : Interpreter} {calls : List Call} {call : Call}
    (books : SessionBooks platform calls interpreter) (noReturn : ¬call.ExecReturned)
    (stepEq : interpreter.step platform call = some next) :
    SessionBooks platform (calls ++ [call]) next := by
  have flatMap_concat : ∀ f : Call → List Byte,
      (calls ++ [call]).flatMap f = calls.flatMap f ++ f call := by
    intro f
    simp
  have leaks_concat : (calls ++ [call]).reverse.flatMap (Call.leaks platform) =
      call.leaks platform ++ calls.reverse.flatMap (Call.leaks platform) := by
    simp
  cases call with
  | keystroke key =>
      simp only [step, Option.some.injEq] at stepEq
      subst next
      refine ⟨books.valid, books.leaks, fun notAborted => ?_, books.results_eq, ?_, ?_⟩
      · rw [leaks_concat]
        exact books.table_eq notAborted
      · rw [flatMap_concat, typedKeys, List.filterMap_append, ← typedKeys, books.typed_eq]
        rfl
      · intro notAborted
        rw [flatMap_concat, injectedChars_append, books.injected_eq notAborted]
        rfl
  | injectInput texts =>
      simp only [step] at stepEq
      split at stepEq
      · rename_i possible
        simp only [Option.some.injEq] at stepEq
        subst next
        refine ⟨books.valid, books.leaks, fun notAborted => ?_, books.results_eq, ?_, ?_⟩
        · rw [leaks_concat]
          exact books.table_eq notAborted
        · have nothing : typedKeys (injectInput texts) = [] := by
            rw [typedKeys, injectInput, List.filterMap_flatMap, List.flatMap_eq_nil_iff]
            intro text _
            exact typedKeys_injectChar text.1 text.2
          rw [flatMap_concat, typedKeys, List.filterMap_append, ← typedKeys, ← typedKeys,
            books.typed_eq, nothing]
          rfl
        · intro notAborted
          rw [flatMap_concat, injectedChars_append, books.injected_eq notAborted,
            injectedChars_injectInput possible.2]
          rfl
      · simp at stepEq
  | startMiddleMan events =>
      simp only [step] at stepEq
      split at stepEq
      · simp at stepEq
      rename_i notAborted
      rcases Option.bind_eq_some_iff.mp stepEq with ⟨final, runs, afterEq⟩
      have typed : typedKeys (interpreter.queue ++ final.channel.queue) =
          (calls ++ [Call.startMiddleMan events]).flatMap Call.keys := by
        rw [flatMap_concat, typedKeys, List.filterMap_append, ← typedKeys, ← typedKeys,
          books.typed_eq, (System.written_and_typedKeys_of_run runs).2]
        rfl
      simp only [afterCall] at afterEq
      split at afterEq
      · rename_i exit back
        simp only [Option.some.injEq] at afterEq
        subst next
        rcases Leaks.afterCall books runs back with ⟨exitEq, valid, leaks, tableEq⟩
        refine ⟨valid, leaks, ?_, List.forall_mem_cons.mpr ⟨exitEq, books.results_eq⟩, typed, ?_⟩
        · intro _
          rw [leaks_concat, ← books.table_eq (by simpa using notAborted)]
          exact tableEq
        · intro _
          have noReturns : ∀ event ∈ events, ¬event.ExecReturned := by
            intro event event_mem returned
            exact noReturn ⟨event, event_mem, returned⟩
          rw [flatMap_concat, injectedChars_append,
            books.injected_eq (by simpa using notAborted),
            System.injectedChars_eq_nil_of_left runs noReturns back]
          rfl
      · simp only [Option.some.injEq] at afterEq
        subst next
        exact ⟨books.valid, books.leaks, by simp, books.results_eq, typed, by simp⟩
      · simp at afterEq

/--
In every session in which no `execlp` returned: `StartMiddleMan` gave its caller 1 or an
exception, the table holds what the calls which threw have left there, the keys of the user
are complete and in order, and, until a call aborts the interpreter, the table holds exactly
what `open` or `CreateProcessA` answered to these calls, and the characters injected are
those of the `InjectInput` calls, in order.
-/
theorem session_of_run {children : List Child} {calls : List Call} {final : Interpreter}
    (runs : Transition.run (step platform) (start children) calls = some final)
    (noReturn : ∀ call ∈ calls, ¬call.ExecReturned) :
    (∀ exit ∈ final.results, exit = .returned 1 ∨ exit = .threw) ∧
      Leaks platform final.table (final.results.count .threw) ∧
        typedKeys final.queue = calls.flatMap Call.keys ∧
          (final.aborted = false →
            final.table = calls.reverse.flatMap (Call.leaks platform) ∧
              injectedChars final.queue = calls.flatMap Call.injected) := by
  have books : SessionBooks platform calls final := by
    refine Transition.history_invariant_of_allowed (fun call => ¬call.ExecReturned)
      (SessionBooks platform) (sessionBooks_start platform children) ?_ runs noReturn
    intro calls interpreter call next books callNoReturn stepEq
    exact books.concat callNoReturn stepEq
  refine ⟨books.results_eq, books.leaks, books.typed_eq, ?_⟩
  intro notAborted
  exact ⟨books.table_eq notAborted, books.injected_eq notAborted⟩

/-- On Linux: a text, a call which throws while the user types, and another text. -/
def throwingSession : List Call :=
  [.injectInput [(0x61#8, .ioctl 0)],
    .startMiddleMan
      [.main .host (.openPipe 3), .main .host .checkPipe, .main .host (.fork 100),
        .keystroke 0x78#8, .main .forked (.execlp true), .main .host .storePid,
        .main .host (.startThread none), .main .host .destroy, .main .host .destroy,
        .main .host .destroy],
    .injectInput [(0x62#8, .ioctl (-1)), (0x63#8, .ioctl 0)]]

theorem session_of_run_throwing :
    ∃ final, Transition.run (step .linux) (start []) throwingSession = some final ∧
      (∀ exit ∈ final.results, exit = .returned 1 ∨ exit = .threw) ∧
        Leaks .linux final.table (final.results.count .threw) ∧
          typedKeys final.queue = throwingSession.flatMap Call.keys ∧
            (final.aborted = false →
              final.table = throwingSession.reverse.flatMap (Call.leaks .linux) ∧
                injectedChars final.queue = throwingSession.flatMap Call.injected) := by
  refine ⟨_, rfl, ?_⟩
  refine @session_of_run .linux [] throwingSession _ rfl ?_
  simp [throwingSession, Call.ExecReturned, System.Event.ExecReturned]

end Interpreter

end MiddleMan
