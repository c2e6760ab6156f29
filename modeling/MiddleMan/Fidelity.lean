import MiddleMan.Lifetimes

/-!
# Fidelity of the relay

As long as only the host runs a reader, a run of the system is a run of `Relay`: the
other parties do not touch the channel.  With successful injections every byte written is
then in the terminal, in the reader's hand or in the pipe.

A second reader appears exactly when `execlp` returns in the forked child: the child goes
on as a copy of the host and starts a reader of its own on the inherited descriptor.
-/

namespace MiddleMan

namespace Process

variable {platform : Platform} {process next : Process}

theorem MainStep.reader_eq {call : MainCall} (step : MainStep platform process call next) :
    next.reader = process.reader ∨
      ∃ buffer, call = .startThread (some buffer) ∧ process.main = .startThread ∧
        next.reader = some (Reader.start buffer) := by
  cases step with
  | threadStarted buffer atPc => exact Or.inr ⟨buffer, rfl, atPc, rfl⟩
  | _ => exact Or.inl rfl

end Process

namespace System

/-- The program could not be launched: `fork`, `execlp` or `CreateProcessA` failed. -/
def Event.LaunchFault : Event → Prop
  | .main .host (.fork pid) => pid = -1
  | .main .forked (.execlp replaced) => replaced = false
  | .main .host (.createProcess created) => created = none
  | _ => False

/-- `execlp` returned in the forked child. -/
def Event.ExecReturned : Event → Prop
  | .main .forked (.execlp replaced) => replaced = false
  | _ => False

theorem Event.launchFault_of_execReturned {event : Event} (returned : event.ExecReturned) :
    event.LaunchFault := by
  simp only [ExecReturned] at returned
  split at returned
  · exact returned
  · exact returned.elim

/-- The event is not an injection call which fails or writes only some of its records. -/
def Event.InjectionSucceeds : Event → Prop
  | .reader _ (.inject answer) => answer.complete = true
  | _ => True

/-- The forked child does not run a reader: it waits for `execlp`, or runs the program. -/
def ForkedSilent (system : System) : Prop :=
  ∀ process, system.forked = some process →
    process.reader = none ∧ (process.main = .execlp ∨ process.main = .replaced)

variable {platform : Platform} {system next : System}

theorem Step.forkedSilent {event : Event} (step : Step platform system event next)
    (noReturn : ¬event.ExecReturned) (silent : system.ForkedSilent) : next.ForkedSilent := by
  intro forked forkedEq
  cases step with
  | hostMain call process mainStep =>
      rcases system.afterHost_forked process call with unchanged | made
      · rw [unchanged] at forkedEq
        exact silent forked forkedEq
      · rcases made with ⟨pid, rfl, _, copied⟩
        simp only [copied, Option.some.injEq] at forkedEq
        subst forked
        exact ⟨rfl, Or.inl rfl⟩
  | forkedMain call process processNext present mainStep =>
      simp only [afterForked_forked, Option.some.injEq] at forkedEq
      subst forked
      rcases silent process present with ⟨noReader, atExec | replaced⟩
      · cases mainStep with
        | execReplaced atPc => exact ⟨noReader, Or.inr rfl⟩
        | execReturned atPc => exact absurd rfl noReturn
        | _ => simp_all
      · cases mainStep <;> simp_all
  | reader who call process reader readerNext channel present running hasReader readerStep =>
      cases who with
      | host => exact silent forked forkedEq
      | forked =>
          rw [(silent process present).1] at hasReader
          simp at hasReader
  | programExit running =>
      rw [reportExit_forked] at forkedEq
      exact silent forked forkedEq
  | write bytes => exact silent forked forkedEq
  | keystroke key => exact silent forked forkedEq
  | childExit pid other => exact silent forked forkedEq
  | childReaped pid onLinux exited => exact silent forked forkedEq

/-! ## The system as a relay -/

/-- What the relay of the host sees of an event of the system. -/
def Event.relayEvents : Event → List Relay.Event
  | .write bytes => [.write bytes]
  | .keystroke key => [.keystroke key]
  | .main .host (.startThread (some buffer)) => [.start buffer]
  | .reader .host call => [.reader call]
  | _ => []

/-- The relay's view of the system. -/
structure Shows (platform : Platform) (system : System) (relay : Relay) : Prop where
  channel_eq : relay.channel = system.channel
  reader_eq : relay.reader = system.host.reader
  wellFormed : system.WellFormed platform
  silent : system.ForkedSilent

theorem Shows.hostMain {relay : Relay} (shows : Shows platform system relay)
    {call : MainCall} {process : Process}
    (mainStep : Process.MainStep platform system.host call process) :
    ∃ relayNext,
      Transition.run (Relay.step platform) relay (Event.main .host call).relayEvents =
          some relayNext ∧
        relayNext.channel = system.channel ∧ relayNext.reader = process.reader := by
  rcases mainStep.reader_eq with unchanged | ⟨buffer, rfl, atPc, started⟩
  · have noEvents : (Event.main .host call).relayEvents = [] ∨
        ∃ buffer, call = .startThread (some buffer) := by
      cases call with
      | startThread buffer =>
          cases buffer with
          | none => exact Or.inl rfl
          | some buffer => exact Or.inr ⟨buffer, rfl⟩
      | _ => exact Or.inl rfl
    rcases noEvents with noEvents | ⟨buffer, rfl⟩
    · rw [noEvents, unchanged]
      exact ⟨relay, rfl, shows.channel_eq, shows.reader_eq⟩
    · cases mainStep with
      | threadStarted buffer atPc =>
          have hostWellFormed := shows.wellFormed.1
          simp only [Process.WellFormed, atPc] at hostWellFormed
          rw [hostWellFormed.2.1] at unchanged
          simp at unchanged
  · have hostWellFormed := shows.wellFormed.1
    simp only [Process.WellFormed, atPc] at hostWellFormed
    have absent : relay.reader = none := shows.reader_eq.trans hostWellFormed.2.1
    refine ⟨{ relay with reader := some (Reader.start buffer) }, ?_, shows.channel_eq,
      started.symm⟩
    simp [Event.relayEvents, Relay.step, absent]

theorem Step.shows {event : Event} (step : Step platform system event next)
    (noReturn : ¬event.ExecReturned) {relay : Relay} (shows : Shows platform system relay) :
    ∃ relayNext,
      Transition.run (Relay.step platform) relay event.relayEvents = some relayNext ∧
        Shows platform next relayNext := by
  have nextWellFormed := step.wellFormed shows.wellFormed
  have nextSilent := step.forkedSilent noReturn shows.silent
  cases step with
  | write bytes =>
      refine ⟨{ relay with channel := relay.channel.write bytes }, rfl, ?_, shows.reader_eq,
        nextWellFormed, nextSilent⟩
      rw [shows.channel_eq]
  | keystroke key =>
      refine ⟨{ relay with channel := relay.channel.type key }, rfl, ?_, shows.reader_eq,
        nextWellFormed, nextSilent⟩
      rw [shows.channel_eq]
  | hostMain call process mainStep =>
      rcases shows.hostMain mainStep with ⟨relayNext, relayRuns, channelEq, readerEq⟩
      refine ⟨relayNext, relayRuns, ?_, ?_, nextWellFormed, nextSilent⟩
      · rw [channelEq, afterHost_channel]
      · rw [readerEq, afterHost_host]
  | forkedMain call process processNext present mainStep =>
      refine ⟨relay, rfl, ?_, ?_, nextWellFormed, nextSilent⟩
      · rw [shows.channel_eq, afterForked_channel]
      · rcases system.afterForked_host processNext call with ⟨children, hostEq⟩
        rw [shows.reader_eq, hostEq]
  | reader who call process reader readerNext channel present running hasReader readerStep =>
      cases who with
      | host =>
          simp only [System.process, Option.some.injEq] at present
          subst process
          have relayReader : relay.reader = some reader := shows.reader_eq.trans hasReader
          refine ⟨{ channel := channel, reader := some readerNext }, ?_, rfl, rfl,
            nextWellFormed, nextSilent⟩
          simp [Event.relayEvents, Relay.step, relayReader, shows.channel_eq, readerStep]
      | forked =>
          rw [(shows.silent process present).1] at hasReader
          simp at hasReader
  | programExit running =>
      refine ⟨relay, rfl, ?_, ?_, nextWellFormed, nextSilent⟩
      · rw [shows.channel_eq, reportExit_channel]
      · rcases reportExit_host { system with program := .exited } with ⟨children, hostEq⟩
        rw [shows.reader_eq, hostEq]
  | childExit pid other =>
      exact ⟨relay, rfl, shows.channel_eq, shows.reader_eq, nextWellFormed, nextSilent⟩
  | childReaped pid onLinux exited =>
      exact ⟨relay, rfl, shows.channel_eq, shows.reader_eq, nextWellFormed, nextSilent⟩

/-- A run in which `execlp` does not return is a run of the host's relay. -/
theorem run_shows {others : List Child} {events : List Event} {final : System}
    (runs : Transition.run (step platform) (initial others) events = some final)
    (noReturn : ∀ event ∈ events, ¬event.ExecReturned) :
    ∃ relay,
      Transition.run (Relay.step platform) Relay.initial (events.flatMap Event.relayEvents) =
          some relay ∧
        Shows platform final relay := by
  have start : Shows platform (initial others) Relay.initial :=
    ⟨rfl, rfl, wellFormed_entering [] others, by simp [ForkedSilent, initial, entering]⟩
  refine Transition.run_simulates (fun event => ¬event.ExecReturned) ?_ start runs
    noReturn
  intro system relay event next shows eventNoReturn stepEq
  exact (step_sound stepEq).shows eventNoReturn shows

theorem injectReturns_relayEvents {events : List Event}
    (succeeds : ∀ event ∈ events, event.InjectionSucceeds) :
    ∀ answer ∈ Relay.injectReturns (events.flatMap Event.relayEvents),
      answer.delivers = true := by
  intro answer answer_mem
  rcases List.mem_filterMap.mp answer_mem with ⟨relayEvent, relayEvent_mem, isInjection⟩
  rcases List.mem_flatMap.mp relayEvent_mem with ⟨event, event_mem, shown⟩
  have eventSucceeds := succeeds event event_mem
  apply InjectReturn.delivers_of_complete
  simp only [Event.relayEvents] at shown
  split at shown <;> simp only [List.mem_singleton, List.not_mem_nil] at shown
  all_goals subst relayEvent
  · simp [Relay.Event.injectReturn?] at isInjection
  · simp [Relay.Event.injectReturn?] at isInjection
  · simp [Relay.Event.injectReturn?] at isInjection
  · rename_i call
    cases call with
    | inject returned =>
        simp only [Relay.Event.injectReturn?, Option.some.injEq] at isInjection
        subst returned
        exact eventSucceeds
    | _ => simp [Relay.Event.injectReturn?] at isInjection

theorem Shows.pending_eq {relay : Relay} (shows : Shows platform system relay) :
    relay.pending = system.host.pending := by
  rw [Relay.pending, shows.reader_eq]
  rfl

theorem Shows.conservation {relay : Relay} (shows : Shows platform system relay)
    {events : List Event}
    (relayRuns : Transition.run (Relay.step platform) Relay.initial
      (events.flatMap Event.relayEvents) = some relay)
    (succeeds : ∀ event ∈ events, event.InjectionSucceeds) :
    injectedChars system.channel.queue ++ system.host.pending ++ system.channel.fifo =
      system.channel.written := by
  have conserved := (Relay.books_of_run relayRuns).conservation
    (injectReturns_relayEvents succeeds)
  rwa [shows.channel_eq, shows.pending_eq] at conserved

theorem no_execReturned_of_launched {events : List Event}
    (launched : ∀ event ∈ events, ¬event.LaunchFault) :
    ∀ event ∈ events, ¬event.ExecReturned := by
  intro event event_mem returned
  exact launched event event_mem (Event.launchFault_of_execReturned returned)

/--
Relay fidelity: if the program is launched and every injection succeeds, then in every
reachable state the injected characters, the rest of the chunk in hand and the bytes in
the pipe are together exactly the bytes written.
-/
theorem injected_pending_fifo_eq_written {others : List Child} {events : List Event}
    {final : System}
    (runs : Transition.run (step platform) (initial others) events = some final)
    (launched : ∀ event ∈ events, ¬event.LaunchFault)
    (succeeds : ∀ event ∈ events, event.InjectionSucceeds) :
    injectedChars final.channel.queue ++ final.host.pending ++ final.channel.fifo =
      final.channel.written := by
  rcases run_shows runs (no_execReturned_of_launched launched) with ⟨relay, relayRuns, shows⟩
  exact shows.conservation relayRuns succeeds

/-- Two chunks of different lengths, keystrokes in between, and failed and empty reads. -/
def relayingEvents : List Event :=
  [.main .host (.openPipe 3), .main .host .checkPipe, .main .host (.fork 100),
    .main .host .storePid, .main .host (.startThread (some Buffer.zero)),
    .main .forked (.execlp true), .write [0xff#8, 0x00#8, 0x61#8], .reader .host .test,
    .reader .host (.read .failed), .reader .host .test,
    .reader .host (.read (.data [0xff#8, 0x00#8])), .reader .host (.inject (.ioctl 0)),
    .keystroke 0x78#8, .reader .host (.inject (.ioctl 0)), .reader .host .endInject,
    .reader .host .test, .reader .host (.read (.data [])), .write [0x62#8],
    .reader .host .test, .reader .host (.read (.data [0x61#8]))]

theorem injected_pending_fifo_eq_written_relaying :
    ∃ final, Transition.run (step .linux) (initial []) relayingEvents = some final ∧
      final.channel.queue = [.pushed 0xff#8, .typed 0x78#8, .pushed 0x00#8] ∧
        final.host.pending = [0x61#8] ∧ final.channel.fifo = [0x62#8] ∧
          injectedChars final.channel.queue ++ final.host.pending ++ final.channel.fifo =
            final.channel.written := by
  refine ⟨_, rfl, rfl, rfl, rfl, ?_⟩
  refine @injected_pending_fifo_eq_written .linux [] relayingEvents _ rfl ?_ ?_
  · simp [relayingEvents, Event.LaunchFault]
  · simp [relayingEvents, Event.InjectionSucceeds, InjectReturn.complete]

/-! ## One reader per pipe -/

/-- The process has started its reader thread, which may have ended since. -/
def RanReader (process : Process) : Prop :=
  process.reader.isSome = true

/-- What a process that is still there has taken out of the pipe and not yet tried to inject. -/
def livePending (system : System) (who : Who) : List Byte :=
  match system.process who with
  | none => []
  | some process => if process.Running then process.pending else []

/--
At most one process has run the reader loop, and what was taken out of the pipe has been
injected in order, up to the rest of the chunk which one living reader holds.
-/
structure OneRelay (system : System) : Prop where
  oneReader : ¬(RanReader system.host ∧
    ∃ process, system.forked = some process ∧ RanReader process)
  taken_eq : ∃ who, system.channel.taken =
    injectedChars system.channel.queue ++ system.livePending who

/-- The main thread has not left `StartMiddleMan`, by returning, throwing or dying. -/
def Inside (process : Process) : Prop :=
  match process.main with
  | .left _ | .dead => False
  | _ => True

theorem inside_of_wait {process : Process} (waiting : process.main = .wait) : Inside process := by
  simp [Inside, waiting]

/-- The event agrees with what `fork` and `execlp` do. -/
def Event.Outcome (forkReturn : ℤ) (replaced : Bool) : Event → Prop
  | .main .host (.fork pid) => pid = forkReturn
  | .main .forked (.execlp outcome) => outcome = replaced
  | _ => True

theorem pending_eq_livePending (wellFormed : system.WellFormed platform)
    (inside : Inside system.host) : system.livePending .host = system.host.pending := by
  by_cases running : system.host.Running
  · simp [livePending, System.process, running]
  · simp only [livePending, System.process, if_neg running]
    have hostWellFormed := wellFormed.1
    simp only [Process.Running, not_and_or, not_not] at running
    rcases running with dead | replaced
    · simp [Inside, dead] at inside
    · simp only [Process.WellFormed, replaced] at hostWellFormed
      simp [Process.pending, hostWellFormed]

theorem oneRelay_of_run {others : List Child} {events : List Event} {final : System}
    (runs : Transition.run (step platform) (initial others) events = some final)
    (noReturn : ∀ event ∈ events, ¬event.ExecReturned)
    (succeeds : ∀ event ∈ events, event.InjectionSucceeds) (inside : Inside final.host) :
    final.OneRelay := by
  rcases run_shows runs noReturn with ⟨relay, relayRuns, shows⟩
  have books := Relay.books_of_run relayRuns
  constructor
  · rintro ⟨_, process, present, ranReader⟩
    simp [RanReader, (shows.silent process present).1] at ranReader
  · refine ⟨.host, ?_⟩
    have delivered : ∀ call ∈ relay.channel.calls, call.2.delivers = true := by
      intro call call_mem
      apply injectReturns_relayEvents succeeds
      rw [← books.returns_eq]
      exact List.mem_map_of_mem call_mem
    rw [pending_eq_livePending shows.wellFormed inside, ← shows.channel_eq, books.accounted,
      books.consistent.injectedChars_eq, Delivery.received_eq_of_forall delivered,
      shows.pending_eq]

theorem Step.forked_eq_none {event : Event} (step : Step platform system event next)
    {forkReturn : ℤ} (noChild : ¬0 < forkReturn) {replaced : Bool}
    (outcome : event.Outcome forkReturn replaced) (absent : system.forked = none) :
    next.forked = none := by
  cases step with
  | hostMain call process mainStep =>
      rcases system.afterHost_forked process call with unchanged | made
      · rw [unchanged, absent]
      · rcases made with ⟨pid, rfl, positive, _⟩
        simp only [Event.Outcome] at outcome
        subst pid
        exact absurd positive noChild
  | forkedMain call process processNext present mainStep => simp [absent] at present
  | reader who call process reader readerNext channel present running hasReader readerStep =>
      cases who with
      | host => exact absent
      | forked => simp [System.process, absent] at present
  | programExit running => rw [reportExit_forked, absent]
  | write bytes => exact absent
  | keystroke key => exact absent
  | childExit pid other => exact absent
  | childReaped pid onLinux exited => exact absent

theorem no_execReturned {forkReturn : ℤ} {replaced : Bool}
    (good : ¬(0 < forkReturn ∧ replaced = false)) {others : List Child} {events : List Event}
    {final : System}
    (runs : Transition.run (step platform) (initial others) events = some final)
    (outcome : ∀ event ∈ events, event.Outcome forkReturn replaced) :
    ∀ event ∈ events, ¬event.ExecReturned := by
  intro event event_mem returned
  have eventOutcome := outcome event event_mem
  simp only [Event.ExecReturned] at returned
  split at returned
  · rename_i actual
    simp only [Event.Outcome] at eventOutcome
    have noChild : ¬0 < forkReturn := fun positive =>
      good ⟨positive, eventOutcome.symm.trans returned⟩
    rcases Transition.step_of_mem runs event_mem with
      ⟨front, back, before, after, rfl, frontRuns, stepEq, _⟩
    -- before the first returning `execlp` there is no process which could execute it
    have absent : before.forked = none := by
      have preserved : ∀ (system : System) (event : Event) (next : System),
          system.forked = none → event.Outcome forkReturn replaced →
            system.step platform event = some next → next.forked = none := by
        intro system event next absent eventOutcome stepEq
        exact (step_sound stepEq).forked_eq_none noChild eventOutcome absent
      exact Transition.invariant_of_allowed _ (by rfl) preserved frontRuns
        fun event front_mem => outcome event (List.mem_append_left _ front_mem)
    simp [step, absent] at stepEq
  · exact returned

/-- `execlp` returns in the child, which falls out of the constructor and starts a thread too. -/
def secondReaderEvents (pid : ℤ) : List Event :=
  [.main .host (.openPipe 3), .main .host .checkPipe, .main .host (.fork pid),
    .main .host .storePid, .main .host (.startThread (some Buffer.zero)),
    .main .forked (.execlp false), .main .forked .storePid,
    .main .forked (.startThread (some Buffer.zero))]

/-- On Linux, the pipe has been opened as descriptor 3 and `fork` comes next. -/
def launching : System :=
  { initial [] with
    host :=
      { Process.initial [] with
        main := .launch
        frame := [.pipe]
        pipe := .alive (GeneralPipe.construct .linux 3)
        table := [GeneralPipe.resource .linux 3] } }

theorem secondReader_runs {pid : ℤ} (positive : 0 < pid) :
    ∃ final, Transition.run (step .linux) (initial []) (secondReaderEvents pid) = some final ∧
      Inside final.host ∧ RanReader final.host ∧
        ∃ process, final.forked = some process ∧ RanReader process := by
  have opened : Transition.run (step .linux) (initial [])
      [.main .host (.openPipe 3), .main .host .checkPipe] = some launching := rfl
  have forkAnswer : ForkAnswer [] pid := Or.inr ⟨positive, by simp⟩
  have forkStep : launching.step .linux (.main .host (.fork pid)) =
      some
        { launching with
          host :=
            { launching.host with
              main := .storePid pid
              children := adoptForked pid [] }
          forked := some launching.host.forkedCopy
          programPid := some pid } := by
    simp [step, launching, initial, entering, Process.initial, Process.entering, Process.mainStep,
      Process.launch, forkAnswer, afterHost, positive]
  -- from here on nothing depends on the value of the pid
  have split : secondReaderEvents pid =
      [.main .host (.openPipe 3), .main .host .checkPipe] ++
        .main .host (.fork pid) :: (secondReaderEvents pid).drop 3 := rfl
  rw [split, Transition.run_append, opened, Option.bind_some, Transition.run_cons, forkStep,
    Option.bind_some]
  exact ⟨_, rfl, trivial, rfl, _, rfl, rfl⟩

/--
For given outcomes of `fork` and `execlp`: all runs keep to one relay exactly if it does
not happen that a child is made and `execlp` returns in it.
-/
theorem oneRelay_iff (forkReturn : ℤ) (replaced : Bool) :
    (∀ others events final,
        Transition.run (step .linux) (initial others) events = some final →
          (∀ event ∈ events, event.Outcome forkReturn replaced ∧ event.InjectionSucceeds) →
            Inside final.host → final.OneRelay) ↔
      ¬(0 < forkReturn ∧ replaced = false) := by
  constructor
  · rintro always ⟨positive, rfl⟩
    rcases secondReader_runs positive with ⟨final, runs, inside, hostRan, forkedRan⟩
    have outcome : ∀ event ∈ secondReaderEvents forkReturn,
        event.Outcome forkReturn false ∧ event.InjectionSucceeds := by
      simp [secondReaderEvents, Event.Outcome, Event.InjectionSucceeds]
    exact (always [] _ final runs outcome inside).oneReader ⟨hostRan, forkedRan⟩
  · intro good others events final runs outcome inside
    refine oneRelay_of_run runs ?_ (fun event event_mem => (outcome event event_mem).2) inside
    exact no_execReturned good runs fun event event_mem => (outcome event event_mem).1

/-- Both readers take a byte; the child's arrives first, then the child is torn down. -/
def swappingEvents : List Event :=
  secondReaderEvents 100 ++
    [.write [0x6c#8, 0x73#8, 0x0a#8], .reader .host .test, .reader .forked .test,
      .reader .host (.read (.data [0x6c#8])), .reader .forked (.read (.data [0x73#8])),
      .reader .forked (.inject (.ioctl 0)), .reader .host (.inject (.ioctl 0)),
      .reader .forked .endInject, .reader .forked .test,
      .reader .forked (.read (.data [0x0a#8])), .main .forked (.wait .noChild),
      .main .forked .return0, .main .forked .destroy, .main .forked .die]

/-- The stream is `ls` and a newline; the terminal gets `sl`, and the newline is lost. -/
theorem swapped_and_lost_by_second_reader :
    ∃ final, Transition.run (step .linux) (initial []) swappingEvents = some final ∧
      (∀ event ∈ swappingEvents, event.InjectionSucceeds) ∧ Inside final.host ∧
        final.channel.taken = [0x6c#8, 0x73#8, 0x0a#8] ∧
          injectedChars final.channel.queue = [0x73#8, 0x6c#8] ∧ ¬final.OneRelay := by
  have summary : (Transition.run (step .linux) (initial []) swappingEvents).map
      (fun final =>
        (final.host.main, final.channel.taken, injectedChars final.channel.queue)) =
      some (.wait, [0x6c#8, 0x73#8, 0x0a#8], [0x73#8, 0x6c#8]) := rfl
  rcases Option.map_eq_some_iff.mp summary with ⟨final, runs, finalEq⟩
  simp only [Prod.mk.injEq] at finalEq
  rcases finalEq with ⟨waiting, takenEq, injectedEq⟩
  refine ⟨final, runs, ?_, inside_of_wait waiting, takenEq, injectedEq, ?_⟩
  · simp [swappingEvents, secondReaderEvents, Event.InjectionSucceeds, InjectReturn.complete]
  · intro oneRelay
    rcases oneRelay.taken_eq with ⟨who, inOrder⟩
    rw [takenEq, injectedEq] at inOrder
    simp at inOrder

end System

end MiddleMan
