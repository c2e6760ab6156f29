import MiddleMan.FairRelay
import MiddleMan.Completion

/-!
# Every line arrives

The whole pipeline in an execution which goes on for ever and which is fair to both sides:
what the test program has produced it writes, and what is written the relay delivers.  Each
half has its own measure, and the relay's half is that of `FairRelay`, for the system inside
the pipeline.
-/

namespace MiddleMan

namespace System

/-- The host keeps its reader thread. -/
theorem Step.host_reader_ne_none {platform : Platform} {system next : System} {event : Event}
    (step : Step platform system event next) (present : system.host.reader ≠ none) :
    next.host.reader ≠ none := by
  cases step with
  | hostMain call process mainStep =>
      rw [afterHost_host]
      rcases mainStep.reader_eq with unchanged | ⟨buffer, _, _, started⟩
      · rwa [unchanged]
      · simp [started]
  | forkedMain call process processNext forked mainStep =>
      rcases system.afterForked_host processNext call with ⟨children, hostEq⟩
      rw [hostEq]
      exact present
  | reader who call process reader readerNext channel there running hasReader readerStep =>
      cases who with
      | host => simp [setProcess]
      | forked => exact present
  | programExit running =>
      rcases reportExit_host { system with program := .exited } with ⟨children, hostEq⟩
      rw [hostEq]
      exact present
  | write bytes => exact present
  | keystroke key => exact present
  | childExit pid other => exact present
  | childReaped pid onLinux exited => exact present

end System

namespace Pipeline

/--
The test program goes on with what it has begun.  A write which waits for room in the pipe
is possible all the same; to be fair to it means that it does not wait for ever.
-/
def Event.SenderContinues : Event → Prop
  | .sender call => Sender.Continues call
  | _ => False

/-- The relay's reader thread gets on. -/
def Event.ReaderGetsOn : Event → Prop
  | .system event => event.GetsOn
  | _ => False

/-- Everything the greeting and the command loop have produced so far. -/
def produced (platform : Platform) (pipeline : Pipeline) : List Byte :=
  greeting platform ++ pipeline.sender.loop.written

variable {platform : Platform} {input : List Byte} {pipeline next : Pipeline} {event : Event}

theorem Step.produced_isPrefix (step : Step platform false pipeline event next) :
    pipeline.produced platform <+: next.produced platform := by
  rw [produced, produced, List.prefix_append_right_inj]
  cases step with
  | sender call sender possible senderStep =>
      rw [afterSender_sender]
      exact (Sender.step_sound senderStep).loop_written_isPrefix
  | execlp replaced status => exact List.prefix_rfl
  | opens status => exact List.prefix_rfl
  | system event system status possible systemStep => exact List.prefix_rfl

/-- An upper bound for the calls of the test program until `count` bytes have been written. -/
def owed (count : ℕ) (pipeline : Pipeline) : ℕ :=
  pipeline.sender.owed (count - pipeline.system.channel.written.length)

theorem Step.owed_le (step : Step platform false pipeline event next)
    (flowing : pipeline.Flowing platform) {count : ℕ}
    (missing : pipeline.system.channel.written.length < count) :
    next.owed count ≤ pipeline.owed count ∧
      (event.SenderContinues → next.owed count < pipeline.owed count) := by
  have writtenEq := step.written_eq
  rw [owed, owed, writtenEq, List.length_append]
  cases step with
  | sender call sender possible senderStep =>
      rw [afterSender_sender]
      have smaller := (Sender.step_sound senderStep).owed_le flowing.launched missing
      simp only [Event.senderCalls, List.flatMap_cons, List.flatMap_nil, List.append_nil]
      exact smaller
  | execlp replaced status => exact ⟨le_refl _, False.elim⟩
  | opens status => exact ⟨le_refl _, False.elim⟩
  | system event system status possible systemStep => exact ⟨le_refl _, False.elim⟩

/-- While the pipe has a reader, what is still to be written can be written. -/
theorem enabled_of_unsent (flowing : pipeline.Flowing platform)
    (alive : pipeline.sender.ended = none)
    (noEmpty : pipeline.sender.pc.NoEmptyMessage)
    (unsent : pipeline.sender.unsent platform ≠ []) :
    Transition.Enabled (step platform) Event.SenderContinues pipeline := by
  rcases Sender.exists_continues Nat.one_pos alive noEmpty flowing.launched unsent with
    ⟨call, next, continues, _, senderStep⟩
  refine ⟨.sender call, continues, ?_⟩
  have possible := flowing.senderPossible continues senderStep
  simp [step, stepBeside, possible, senderStep]

/-- What the system can do it can do in the pipeline. -/
theorem enabled_of_system (opening : pipeline.terminal = .opening)
    (enabled : Transition.Enabled (System.step platform) System.Event.GetsOn pipeline.system) :
    Transition.Enabled (step platform) Event.ReaderGetsOn pipeline := by
  rcases enabled with ⟨event, getsOn, stepPossible⟩
  refine ⟨.system event, getsOn, ?_⟩
  have possible : pipeline.SystemPossible platform event := by
    cases event with
    | reader who call =>
        apply systemPossible_reader
        rintro rfl
        cases who with
        | host => exact getsOn rfl
        | forked => exact getsOn
    | _ => exact absurd getsOn id
  simp only [step, stepBeside, if_pos (And.intro opening possible), Option.isSome_map]
  exact stepPossible

/-- The system inside the pipeline goes through an execution of its own. -/
def systemExecution (execution : Transition.Execution (step platform)) :
    Transition.Execution (System.step platform) :=
  execution.project Pipeline.system Event.systemEvents Event.length_systemEvents
    fun _ _ happens => (step_sound (Transition.Execution.step_eq happens)).system_runs

/-- A condition on the events of the system which every write meets. -/
theorem forall_systemExecution {execution : Transition.Execution (step platform)}
    {Good : ℕ → System.Event → Prop}
    (good : ∀ moment event, execution.event moment = some (.system event) → Good moment event)
    (writeGood : ∀ moment part, Good moment (.write part)) :
    ∀ moment event, (systemExecution execution).event moment = some event →
      Good moment event := by
  intro moment event happens
  rcases Transition.Execution.exists_of_project_event happens with ⟨whole, wholeEq, shown⟩
  rcases Event.systemEvents_cases shown with rfl | ⟨part, rfl⟩
  · exact good moment event wholeEq
  · exact writeGood moment part

/-- What has been produced is written, if the two sides stay connected. -/
theorem written_of_fair {execution : Transition.Execution (step platform)}
    (start : execution.state 0 = initial input)
    (writes : ∀ moment, execution.event moment ≠ some (.sender .writeFails))
    (fair : execution.WeaklyFair Event.SenderContinues) {now : ℕ}
    (alive : ∀ moment, now ≤ moment → (execution.state moment).sender.ended = none)
    (flowing : ∀ moment, now ≤ moment → (execution.state moment).Flowing platform) :
    ∃ later, now ≤ later ∧
      (execution.state now).produced platform <+:
        (execution.state later).system.channel.written := by
  have runs : ∀ moment, Transition.run (step platform) (initial input)
      (execution.history moment) = some (execution.state moment) := by
    intro moment
    rw [← start]
    exact execution.run_history moment
  have conserved : ∀ moment,
      (execution.state moment).system.channel.written ++
          (execution.state moment).sender.unsent platform =
        (execution.state moment).produced platform := by
    intro moment
    apply written_append_unsent_of_run (runs moment)
    intro fails
    rcases Transition.Execution.exists_of_mem_history fails with ⟨earlier, happens⟩
    exact writes earlier happens
  apply fair.delivers (produced platform) (fun pipeline => pipeline.system.channel.written) owed
  · intro moment event happens
    exact (step_sound (Transition.Execution.step_eq happens)).produced_isPrefix
  · intro moment
    rw [← conserved moment]
    exact List.prefix_append _ _
  · intro moment fromNow missing
    have books := books_of_run (runs moment)
    apply enabled_of_unsent (flowing moment fromNow) (alive moment fromNow) books.noEmpty
    intro nothing
    rw [← conserved moment, nothing, List.append_nil] at missing
    exact absurd missing (lt_irrefl _)
  · intro moment event count fromNow happens missing
    have step := step_sound (Transition.Execution.step_eq happens)
    exact step.owed_le (flowing moment fromNow) missing

/--
Every line arrives.  In an execution in which the program is launched, the injections and the
writes succeed, and both the test program and the relay's reader thread get their turns:
everything the test program has produced at some moment is in the terminal at some later one,
if from that moment on neither of the two processes ends and every read returns something.
-/
theorem produced_delivered_of_fair {execution : Transition.Execution (step platform)}
    (start : execution.state 0 = initial input)
    (launched : ∀ moment event, execution.event moment = some (.system event) →
      ¬event.LaunchFault)
    (succeeds : ∀ moment event, execution.event moment = some (.system event) →
      event.InjectionSucceeds)
    (writes : ∀ moment, execution.event moment ≠ some (.sender .writeFails))
    (senderFair : execution.WeaklyFair Event.SenderContinues)
    (readerFair : execution.WeaklyFair Event.ReaderGetsOn) {now : ℕ}
    (reads : ∀ moment answer, now ≤ moment →
      execution.event moment = some (.system (.reader .host (.read answer))) →
        answer.chunk ≠ [])
    (alive : ∀ moment, now ≤ moment → (execution.state moment).sender.ended = none)
    (running : ∀ moment, now ≤ moment → (execution.state moment).system.host.Running)
    (present : (execution.state now).system.host.reader ≠ none) :
    ∃ later, now ≤ later ∧
      (execution.state now).produced platform <+:
        injectedChars (execution.state later).system.channel.queue := by
  have stays : ∀ moment, now ≤ moment → (execution.state moment).system.host.reader ≠ none := by
    intro moment fromNow
    refine @Transition.Execution.invariant_from _ _ _ (systemExecution execution)
      (fun system => system.host.reader ≠ none) now present ?_ moment fromNow
    intro earlier event _ happens ih
    exact (System.step_sound (Transition.Execution.step_eq happens)).host_reader_ne_none ih
  have flowing : ∀ moment, now ≤ moment → (execution.state moment).Flowing platform := by
    intro moment fromNow
    have runs := execution.run_history moment
    rw [start] at runs
    exact flowing_of_run runs (alive moment fromNow) (running moment fromNow)
      (stays moment fromNow)
  -- the test program writes what it has produced
  rcases written_of_fair start writes senderFair alive flowing with ⟨middle, fromNow, isWritten⟩
  -- the relay delivers what has been written
  have relayFair : (systemExecution execution).WeaklyFair System.Event.GetsOn := by
    refine readerFair.project ?_ fun moment fromNow =>
      enabled_of_system (flowing moment fromNow).opening
    intro event getsOn
    cases event with
    | system event => exact ⟨event, rfl, getsOn⟩
    | _ => exact absurd getsOn id
  have arrives := @System.written_delivered_of_fair platform (systemExecution execution) []
    (congrArg Pipeline.system start)
    (forall_systemExecution launched (by simp [System.Event.LaunchFault]))
    (forall_systemExecution succeeds (by simp [System.Event.InjectionSucceeds]))
    relayFair middle ?_ ?_ (stays middle fromNow)
  · rcases arrives with ⟨later, fromMiddle, arrived⟩
    exact ⟨later, fromNow.trans fromMiddle, isWritten.trans arrived⟩
  · intro moment answer fromMiddle happens
    rcases Transition.Execution.exists_of_project_event happens with ⟨event, eventEq, shown⟩
    rcases Event.systemEvents_cases shown with rfl | ⟨part, isWrite⟩
    · exact reads moment answer (fromNow.trans fromMiddle) eventEq
    · simp at isWrite
  · intro moment fromMiddle
    exact running moment (fromNow.trans fromMiddle)

/-- In its loop the test program waits for the next line. -/
theorem not_senderEnabled_of_loop (atLoop : pipeline.sender.pc = .loop) :
    ¬Transition.Enabled (step platform) Event.SenderContinues pipeline := by
  rintro ⟨event, continues, possible⟩
  cases event with
  | sender call =>
      rcases Option.isSome_iff_exists.mp possible with ⟨next, stepEq⟩
      cases step_sound stepEq with
      | sender call sender possible senderStep =>
          cases call <;> simp_all [Sender.step, Event.SenderContinues, Sender.Continues]
  | _ => exact continues

theorem not_readerEnabled_of_system
    (waits : ¬Transition.Enabled (System.step platform) System.Event.GetsOn pipeline.system) :
    ¬Transition.Enabled (step platform) Event.ReaderGetsOn pipeline := by
  rintro ⟨event, getsOn, possible⟩
  cases event with
  | system event =>
      rcases Option.isSome_iff_exists.mp possible with ⟨next, stepEq⟩
      cases step_sound stepEq with
      | system event system status possible systemStep =>
          exact waits ⟨event, getsOn, by simp [systemStep]⟩
  | _ => exact getsOn

/-- The quit line is delivered, and then everybody waits. -/
def deliveringEvents : List Event :=
  sendingEvents ++
    [.system (.reader .host .endInject), .sender (.write [newline]),
      .system (.reader .host .test), .system (.reader .host (.read (.data [newline]))),
      .system (.reader .host (.inject (.ioctl 0))), .system (.reader .host .endInject),
      .system (.reader .host .test)]

theorem delivering_runs :
    (Transition.run (step .linux) (initial quitInput) deliveringEvents).isSome = true := rfl

/-- The execution which goes through these events and then stands still. -/
def delivering : Transition.Execution (step .linux) :=
  .ofRun (Option.some_get delivering_runs).symm

/-- The line has been read, and nothing has been written yet. -/
theorem produced_delivered_of_fair_delivering :
    ∃ later, 12 ≤ later ∧
      (delivering.state 12).produced .linux <+:
        injectedChars (delivering.state later).system.channel.queue := by
  have launched : ∀ event, .system event ∈ deliveringEvents → ¬event.LaunchFault := by
    simp [deliveringEvents, sendingEvents, System.Event.LaunchFault]
  have succeeds : ∀ event, .system event ∈ deliveringEvents → event.InjectionSucceeds := by
    simp [deliveringEvents, sendingEvents, System.Event.InjectionSucceeds, InjectReturn.complete]
  have reads : ∀ answer, .system (.reader .host (.read answer)) ∈ deliveringEvents →
      answer.chunk ≠ [] := by
    simp [deliveringEvents, sendingEvents, OsRead.chunk, quitCommand]
  have senderFair : delivering.WeaklyFair Event.SenderContinues :=
    Transition.Execution.weaklyFair_ofRun (not_senderEnabled_of_loop rfl)
  have readerFair : delivering.WeaklyFair Event.ReaderGetsOn :=
    Transition.Execution.weaklyFair_ofRun
      (not_readerEnabled_of_system (System.not_enabled_of_fifo_eq_nil rfl rfl rfl))
  have lives : ∀ moment, (delivering.state moment).sender.ended = none ∧
      (delivering.state moment).system.host.Running :=
    @Transition.Execution.forall_ofRun_state _ _ _ _ _ _ (Option.some_get delivering_runs).symm
      (fun pipeline => pipeline.sender.ended = none ∧ pipeline.system.host.Running) (by decide)
  refine @produced_delivered_of_fair .linux quitInput delivering rfl ?_ ?_ ?_ senderFair
    readerFair 12 ?_ ?_ ?_ (by decide)
  · intro moment event happens
    exact launched event (Transition.Execution.mem_of_ofRun_event happens)
  · intro moment event happens
    exact succeeds event (Transition.Execution.mem_of_ofRun_event happens)
  · intro moment happens
    have fails_mem := Transition.Execution.mem_of_ofRun_event happens
    simp [deliveringEvents, sendingEvents] at fails_mem
  · intro moment answer _ happens
    exact reads answer (Transition.Execution.mem_of_ofRun_event happens)
  · intro moment _
    exact (lives moment).1
  · intro moment _
    exact (lives moment).2

end Pipeline

end MiddleMan
