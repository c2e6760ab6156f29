import MiddleMan.Sender
import MiddleMan.Session
import MiddleMan.TwoRelays
import MiddleMan.ReadEnds

/-!
# The pipeline: test program, terminal and relay

The test program starts a terminal (`xterm`, or a console of its own) in which
`MiddleManTerminal` runs.  The `main` of `MiddleManTerminal` calls `StartMiddleMan` and
ends with it.  `Pipeline` is the test program together with this process and all which the
process starts.

What one side can do depends on the other: on Linux both `open` calls wait for each other,
and either may return first, a `write` without a reader raises `SIGPIPE`, and a `read` finds
the end of the stream without a writer.

The FIFO has a fixed path, and the test program takes one that is there already.  What is
said about the runs of `step` assumes that it is empty at the start and that nobody but the
two sides has it open.  With `stepBeside` some other process may have it open for reading;
`SharedFifo` says which.

A write always finds room here.  So `step` allows more than a pipe of some capacity does,
and what holds of all its runs holds of those with less room as well; where a run is to be
shown possible, `stepWithin` has the capacity.
-/

namespace MiddleMan

/-- What has become of the terminal the test program starts. -/
inductive TerminalStatus where
  | notStarted
  /-- `fork` has returned in the child, which has still to call `execlp`. -/
  | forked
  /-- `execlp` returned, and the child has ended with `return 1`. -/
  | failed
  | running
  /-- `MiddleManTerminal` has called `open` or `CreateFileA` for the pipe. -/
  | opening
deriving DecidableEq, Repr

/-- The test program, and the process in its terminal with all that process has started. -/
structure Pipeline where
  sender : Sender
  terminal : TerminalStatus
  system : System
deriving DecidableEq

namespace Pipeline

/-- A call of the test program, or an event of the process in its terminal. -/
inductive Event where
  | sender (call : SenderCall)
  /-- `execlp` in the child of the test program. -/
  | execlp (replaced : Bool)
  /-- `MiddleManTerminal` opens the pipe. -/
  | opens
  | system (event : System.Event)
deriving DecidableEq

/-- The test program with its input, before it has made the pipe. -/
def initial (input : List Byte) : Pipeline :=
  { sender := Sender.initial input
    terminal := .notStarted
    system := System.initial [] }

/-- A process of this session counts as a reader from the moment in which it opens the pipe. -/
def hasReader (pipeline : Pipeline) : Bool :=
  pipeline.terminal == .opening &&
    (pipeline.system.host.main == .constructPipe || pipeline.system.readEndOpen)

/-- It counts a writer from the moment in which that opens it, too. -/
def hasWriter (pipeline : Pipeline) : Bool :=
  pipeline.sender.ended == none && decide pipeline.sender.PipeOpen

/--
When the pipe lets a call of the test program end like this; `elsewhere` says whether
another process has it open for reading.  If the `open` of the relay has returned because of
the test program's, then that does not fail any more.
-/
def SenderPossible (platform : Platform) (elsewhere : Bool) (pipeline : Pipeline) :
    SenderCall → Prop
  | .connect result =>
      platform = .linux →
        (0 ≤ result → pipeline.terminal = .opening ∨ elsewhere = true) ∧
          (result < 0 → pipeline.system.readEndOpen = false)
  | .write _ => 0 ≤ pipeline.sender.pipe ∧ (pipeline.hasReader = true ∨ elsewhere = true)
  | .sigpipe => 0 ≤ pipeline.sender.pipe ∧ pipeline.hasReader = false ∧ elsewhere = false
  | _ => True

/--
When the pipe lets an event of the other side happen; nobody else writes into it.  The
`open` of the relay returns as soon as the test program has come to its own.
-/
def SystemPossible (platform : Platform) (pipeline : Pipeline) : System.Event → Prop
  | .write _ => False
  | .main .host (.openPipe result) => 0 ≤ result → pipeline.sender.PipeOpen
  | .reader _ (.read (.data [])) =>
      platform = .linux ∧ pipeline.system.channel.fifo = [] ∧ pipeline.hasWriter = false
  | _ => True

instance (platform : Platform) (elsewhere : Bool) (pipeline : Pipeline) (call : SenderCall) :
    Decidable (pipeline.SenderPossible platform elsewhere call) := by
  cases call <;> unfold SenderPossible <;> infer_instance

instance (platform : Platform) (pipeline : Pipeline) (event : System.Event) :
    Decidable (pipeline.SystemPossible platform event) := by
  unfold SystemPossible
  split <;> infer_instance

/-- What a call of the test program means for the others; `next` is the sender after it. -/
def afterSender (pipeline : Pipeline) (next : Sender) : SenderCall → Pipeline
  | .fork pid =>
      { pipeline with sender := next, terminal := if 0 < pid then .forked else pipeline.terminal }
  | .createProcess ok =>
      { pipeline with sender := next, terminal := if ok then .running else pipeline.terminal }
  | .write part =>
      { pipeline with
        sender := next
        system := { pipeline.system with channel := pipeline.system.channel.write part } }
  | _ => { pipeline with sender := next }

/-- One step, while another process has the pipe open for reading or not. -/
def stepBeside (platform : Platform) (elsewhere : Bool) (pipeline : Pipeline) :
    Event → Option Pipeline
  | .sender call =>
      if pipeline.SenderPossible platform elsewhere call then
        (pipeline.sender.step platform call).map fun next => pipeline.afterSender next call
      else none
  | .execlp replaced =>
      if pipeline.terminal = .forked then
        some { pipeline with terminal := if replaced then .running else .failed }
      else none
  | .opens =>
      if pipeline.terminal = .running then some { pipeline with terminal := .opening } else none
  | .system event =>
      if pipeline.terminal = .opening ∧ pipeline.SystemPossible platform event then
        (pipeline.system.step platform event).map fun next => { pipeline with system := next }
      else none

/-- One step, if nobody else has the pipe open. -/
def step (platform : Platform) : Pipeline → Event → Option Pipeline :=
  stepBeside platform false

/-- The steps with the state they lead to. -/
inductive Step (platform : Platform) (elsewhere : Bool) (pipeline : Pipeline) :
    Event → Pipeline → Prop where
  | sender (call : SenderCall) (next : Sender)
      (possible : pipeline.SenderPossible platform elsewhere call)
      (senderStep : pipeline.sender.step platform call = some next) :
      Step platform elsewhere pipeline (.sender call) (pipeline.afterSender next call)
  | execlp (replaced : Bool) (status : pipeline.terminal = .forked) :
      Step platform elsewhere pipeline (.execlp replaced)
        { pipeline with terminal := if replaced then .running else .failed }
  | opens (status : pipeline.terminal = .running) :
      Step platform elsewhere pipeline .opens { pipeline with terminal := .opening }
  | system (event : System.Event) (next : System) (status : pipeline.terminal = .opening)
      (possible : pipeline.SystemPossible platform event)
      (systemStep : pipeline.system.step platform event = some next) :
      Step platform elsewhere pipeline (.system event) { pipeline with system := next }

theorem stepBeside_sound {platform : Platform} {elsewhere : Bool} {pipeline next : Pipeline}
    {event : Event} (stepEq : pipeline.stepBeside platform elsewhere event = some next) :
    Step platform elsewhere pipeline event next := by
  cases event with
  | sender call =>
      simp only [stepBeside] at stepEq
      split at stepEq
      · rename_i possible
        simp only [Option.map_eq_some_iff] at stepEq
        rcases stepEq with ⟨sender, senderStep, rfl⟩
        exact .sender call sender possible senderStep
      · simp at stepEq
  | execlp replaced =>
      simp only [stepBeside] at stepEq
      split at stepEq
      · rename_i status
        simp only [Option.some.injEq] at stepEq
        subst next
        exact .execlp replaced status
      · simp at stepEq
  | opens =>
      simp only [stepBeside] at stepEq
      split at stepEq
      · rename_i status
        simp only [Option.some.injEq] at stepEq
        subst next
        exact .opens status
      · simp at stepEq
  | system event =>
      simp only [stepBeside] at stepEq
      split at stepEq
      · rename_i possible
        simp only [Option.map_eq_some_iff] at stepEq
        rcases stepEq with ⟨system, systemStep, rfl⟩
        exact .system event system possible.1 possible.2 systemStep
      · simp at stepEq

theorem step_sound {platform : Platform} {pipeline next : Pipeline} {event : Event}
    (stepEq : pipeline.step platform event = some next) :
    Step platform false pipeline event next :=
  stepBeside_sound stepEq

/-! ## The two sides of a run -/

/-- The call of the test program which the event is. -/
def Event.senderCalls : Event → List SenderCall
  | .sender call => [call]
  | _ => []

/-- The system sees the test program as a writer. -/
def Event.systemEvents : Event → List System.Event
  | .sender (.write part) => [.write part]
  | .system event => [event]
  | _ => []

theorem Event.length_systemEvents (event : Event) : event.systemEvents.length ≤ 1 := by
  simp only [systemEvents]
  split <;> simp

/-- The system sees its own events, and the writes of the test program. -/
theorem Event.systemEvents_cases {event : Event} {shown : System.Event}
    (shown_mem : shown ∈ event.systemEvents) :
    event = .system shown ∨ ∃ part, shown = .write part := by
  simp only [systemEvents] at shown_mem
  split at shown_mem
  · rename_i part
    exact Or.inr ⟨part, List.mem_singleton.mp shown_mem⟩
  · rename_i event
    have shownEq : shown = event := List.mem_singleton.mp shown_mem
    subst shownEq
    exact Or.inl rfl
  · simp at shown_mem

section Sides

variable {platform : Platform} {elsewhere : Bool} {input : List Byte}
  {pipeline next : Pipeline} {event : Event}

@[simp]
theorem afterSender_sender (pipeline : Pipeline) (sender : Sender) (call : SenderCall) :
    (pipeline.afterSender sender call).sender = sender := by
  cases call <;> rfl

theorem Step.sender_runs (step : Step platform elsewhere pipeline event next) :
    Transition.run (Sender.step platform) pipeline.sender event.senderCalls =
      some next.sender := by
  cases step with
  | sender call sender possible senderStep => simp [Event.senderCalls, senderStep]
  | execlp replaced status => rfl
  | opens status => rfl
  | system event system status possible systemStep => rfl

theorem Step.system_runs (step : Step platform elsewhere pipeline event next) :
    Transition.run (System.step platform) pipeline.system event.systemEvents =
      some next.system := by
  cases step with
  | sender call sender possible senderStep => cases call <;> rfl
  | execlp replaced status => rfl
  | opens status => rfl
  | system event system status possible systemStep => simp [Event.systemEvents, systemStep]

theorem sender_runs_of_run {events : List Event} {final : Pipeline}
    (runs : Transition.run (step platform) (initial input) events = some final) :
    Transition.run (Sender.step platform) (Sender.initial input)
      (events.flatMap Event.senderCalls) = some final.sender := by
  refine Transition.run_projects Pipeline.sender ?_ runs
  intro pipeline event next stepEq
  exact (step_sound stepEq).sender_runs

theorem system_runs_of_run {events : List Event} {final : Pipeline}
    (runs : Transition.run (step platform) (initial input) events = some final) :
    Transition.run (System.step platform) (System.initial [])
      (events.flatMap Event.systemEvents) = some final.system := by
  refine Transition.run_projects Pipeline.system ?_ runs
  intro pipeline event next stepEq
  exact (step_sound stepEq).system_runs

theorem books_of_run {events : List Event} {final : Pipeline}
    (runs : Transition.run (step platform) (initial input) events = some final) :
    final.sender.Books platform input (events.flatMap Event.senderCalls) :=
  Sender.books_of_run (sender_runs_of_run runs)

/-- The stream is what the calls of the test program have put into the pipe. -/
theorem Step.written_eq (step : Step platform elsewhere pipeline event next) :
    next.system.channel.written =
      pipeline.system.channel.written ++ event.senderCalls.flatMap Sender.bytes := by
  cases step with
  | sender call sender possible senderStep =>
      cases call <;> simp [Event.senderCalls, Sender.bytes, afterSender, Channel.write]
  | execlp replaced status => simp [Event.senderCalls]
  | opens status => simp [Event.senderCalls]
  | system event system status possible systemStep =>
      have nothing : event.bytes = [] := by
        cases event with
        | write part => exact absurd possible id
        | _ => rfl
      rw [(System.step_sound systemStep).written_and_typedKeys.1, nothing]
      simp [Event.senderCalls]

theorem written_of_run {events : List Event} {final : Pipeline}
    (runs : Transition.run (step platform) (initial input) events = some final) :
    final.system.channel.written =
      (events.flatMap Event.senderCalls).flatMap Sender.bytes := by
  refine Transition.history_invariant (fun events pipeline =>
    pipeline.system.channel.written =
      (events.flatMap Event.senderCalls).flatMap Sender.bytes) rfl ?_ runs
  intro history pipeline event next writtenEq stepEq
  rw [(step_sound stepEq).written_eq, writtenEq]
  simp [List.flatMap_append]

/-! ## How the two sides find each other -/

/-- Before its `fork` the test program has not started a terminal. -/
def NotStarted (pipeline : Pipeline) : Prop :=
  pipeline.sender.pc = .createPipe ∨ pipeline.sender.pc = .launch →
    pipeline.terminal = .notStarted

/-- What a call of the test program changes outside of it. -/
theorem afterSender_cases (pipeline : Pipeline) (sender : Sender) (call : SenderCall) :
    (∃ part, call = .write part ∧
        (pipeline.afterSender sender call).terminal = pipeline.terminal) ∨
      (pipeline.afterSender sender call).system = pipeline.system ∧
        ((pipeline.afterSender sender call).terminal = pipeline.terminal ∨
          (∃ pid, call = .fork pid ∧ 0 < pid) ∨ call = .createProcess true) := by
  cases call with
  | write part => exact Or.inl ⟨part, rfl, rfl⟩
  | fork pid =>
      refine Or.inr ⟨rfl, ?_⟩
      by_cases positive : 0 < pid
      · exact Or.inr (Or.inl ⟨pid, rfl, positive⟩)
      · exact Or.inl (if_neg positive)
  | createProcess ok =>
      refine Or.inr ⟨rfl, ?_⟩
      cases ok with
      | true => exact Or.inr (Or.inr rfl)
      | false => exact Or.inl rfl
  | _ => exact Or.inr ⟨rfl, Or.inl rfl⟩

/-- A call that starts the terminal finds none; every other one leaves the terminal alone. -/
theorem terminal_afterSender (notStarted : pipeline.NotStarted) {sender : Sender}
    {call : SenderCall} (senderStep : pipeline.sender.step platform call = some sender) :
    (pipeline.afterSender sender call).terminal = pipeline.terminal ∨
      pipeline.terminal = .notStarted := by
  have launches : (∃ pid, call = .fork pid ∧ 0 < pid) ∨ call = .createProcess true →
      pipeline.sender.pc = .launch := by
    rintro (⟨pid, rfl, _⟩ | rfl)
    · cases Sender.step_sound senderStep <;> assumption
    · cases Sender.step_sound senderStep with
      | createdProcess running atPc => exact atPc
  rcases pipeline.afterSender_cases sender call with ⟨part, _, same⟩ | ⟨_, same | launched⟩
  · exact Or.inl same
  · exact Or.inl same
  · exact Or.inr (notStarted (Or.inr (launches launched)))

theorem Step.notStarted (step : Step platform elsewhere pipeline event next)
    (notStarted : pipeline.NotStarted) : next.NotStarted := by
  intro atStart
  cases step with
  | sender call sender possible senderStep =>
      rw [afterSender_sender] at atStart
      rcases (Sender.step_sound senderStep).start_cases atStart with
        ⟨wasStart, noFork, noCreate⟩
      rcases pipeline.afterSender_cases sender call with
        ⟨part, _, same⟩ | ⟨_, same | ⟨pid, isFork, positive⟩ | isCreate⟩
      · rw [same, notStarted wasStart]
      · rw [same, notStarted wasStart]
      · have failed := noFork pid isFork
        omega
      · exact absurd isCreate noCreate
  | execlp replaced status =>
      rw [notStarted atStart] at status
      simp at status
  | opens status =>
      rw [notStarted atStart] at status
      simp at status
  | system event system status possible systemStep => exact notStarted atStart

/-- Once the child has ended instead of becoming the terminal, no other is started. -/
theorem Step.terminal_failed (step : Step platform elsewhere pipeline event next)
    (notStarted : pipeline.NotStarted) (failed : pipeline.terminal = .failed) :
    next.terminal = .failed := by
  cases step with
  | sender call sender possible senderStep =>
      rcases terminal_afterSender notStarted senderStep with same | none
      · rw [same, failed]
      · simp [failed] at none
  | execlp replaced status => simp [failed] at status
  | opens status => simp [failed] at status
  | system event system status possible systemStep => exact failed

/-- What each side has to have done before the other can, if nobody else has the pipe open. -/
structure Handshake (platform : Platform) (pipeline : Pipeline) : Prop where
  notStarted : pipeline.NotStarted
  untouched : pipeline.terminal ≠ .opening → pipeline.system = System.initial []
  connected : platform = .linux → 0 ≤ pipeline.sender.pipe → pipeline.terminal = .opening

theorem handshake_initial (input : List Byte) : (initial input).Handshake platform where
  notStarted := fun _ => rfl
  untouched := fun _ => rfl
  connected := by simp [initial, Sender.initial, invalidHandle]

theorem opening_of_hasReader (reads : pipeline.hasReader = true) :
    pipeline.terminal = .opening := by
  simp only [hasReader, Bool.and_eq_true, beq_iff_eq] at reads
  exact reads.1

theorem Step.handshake (step : Step platform false pipeline event next)
    (handshake : pipeline.Handshake platform) : next.Handshake platform := by
  refine ⟨step.notStarted handshake.notStarted, ?_, ?_⟩
  · cases step with
    | sender call sender possible senderStep =>
        intro notOpening
        rcases pipeline.afterSender_cases sender call with ⟨part, rfl, same⟩ | ⟨systemEq, _⟩
        · rw [same] at notOpening
          exact absurd (opening_of_hasReader (possible.2.resolve_right (by simp))) notOpening
        · rw [systemEq]
          apply handshake.untouched
          rcases terminal_afterSender handshake.notStarted senderStep with same | none
          · rwa [← same]
          · simp [none]
    | execlp replaced status => exact fun _ => handshake.untouched (by simp [status])
    | opens status => exact fun notOpening => absurd rfl notOpening
    | system event system status possible systemStep =>
        exact fun notOpening => absurd status notOpening
  · cases step with
    | sender call sender possible senderStep =>
        rintro rfl connected
        rw [afterSender_sender] at connected
        have wasOpening : pipeline.terminal = .opening := by
          rcases (Sender.step_sound senderStep).pipe_cases with samePipe | ⟨rfl, _⟩
          · rw [samePipe] at connected
            exact handshake.connected rfl connected
          · exact ((possible rfl).1 connected).resolve_right (by simp)
        rcases terminal_afterSender handshake.notStarted senderStep with same | none
        · rw [same, wasOpening]
        · simp [none] at wasOpening
    | execlp replaced status =>
        intro onLinux connected
        rw [handshake.connected onLinux connected] at status
        simp at status
    | opens status => exact fun _ _ => rfl
    | system event system status possible systemStep => exact handshake.connected

theorem handshake_of_run {events : List Event} {final : Pipeline}
    (runs : Transition.run (step platform) (initial input) events = some final) :
    final.Handshake platform :=
  Transition.invariant (handshake_initial input)
    (fun _ _ _ handshake stepEq => (step_sound stepEq).handshake handshake) runs

/--
The test program exits by itself with 1 only, and then it has started no terminal, nothing
was written, and nobody has called `StartMiddleMan`.
-/
theorem exited_of_run {events : List Event} {final : Pipeline}
    (runs : Transition.run (step platform) (initial input) events = some final) {code : ℤ}
    (exited : final.sender.ended = some (.exited code)) :
    code = 1 ∧ final.terminal = .notStarted ∧ final.system = System.initial [] := by
  rcases (books_of_run runs).exited code exited with ⟨one, atStart⟩
  have handshake := handshake_of_run runs
  have notStarted := handshake.notStarted atStart
  exact ⟨one, notStarted, handshake.untouched (by simp [notStarted])⟩

/-- The FIFO is there already, and `fork` fails. -/
def exitingEvents : List Event :=
  [.sender (.createPipe (-1) true), .sender (.fork (-1))]

theorem exited_of_run_fork :
    ∃ final, Transition.run (step .linux) (initial quitInput) exitingEvents = some final ∧
      (1 : ℤ) = 1 ∧ final.terminal = .notStarted ∧ final.system = System.initial [] :=
  ⟨_, rfl, @exited_of_run .linux quitInput exitingEvents _ rfl 1 rfl⟩

/-! ## From the input of the test program to the terminal -/

/-- How often the test program has read a line. -/
def passes (events : List Event) : ℕ :=
  (events.flatMap Event.senderCalls).countP Sender.isGetline

/--
Whatever fails on the way: every byte that arrives in the terminal is one which the command
loop or the greeting produced, and it arrives no more often than it was produced.
-/
theorem injected_subperm_produced {events : List Event} {final : Pipeline}
    (runs : Transition.run (step platform) (initial input) events = some final) :
    (injectedChars final.system.channel.queue).Subperm
      (greeting platform ++ (commandLoop platform input (passes events)).written) := by
  have arrived := (System.shares_of_run (system_runs_of_run runs)).injectedChars_subperm
  have books := books_of_run runs
  apply arrived.trans
  rw [written_of_run runs, passes, ← books.loop_eq]
  apply List.Sublist.subperm
  exact (List.sublist_append_left _ _).trans books.sublist

/-- On Linux, until the first byte of the quit line is in the terminal. -/
def sendingEvents : List Event :=
  [.sender (.createPipe 0 false), .sender (.fork 100), .execlp true, .opens,
    .sender (.connect 3), .system (.main .host (.openPipe 3)), .system (.main .host .checkPipe),
    .system (.main .host (.fork 101)), .sender .getline,
    .system (.main .forked (.execlp true)), .system (.main .host .storePid),
    .system (.main .host (.startThread (some Buffer.zero))), .sender (.write quitCommand),
    .system (.reader .host .test), .system (.reader .host (.read (.data quitCommand))),
    .system (.reader .host (.inject (.ioctl 0)))]

theorem sending_runs :
    (Transition.run (step .linux) (initial quitInput) sendingEvents).isSome = true := rfl

theorem injected_subperm_produced_sending :
    ∃ final, Transition.run (step .linux) (initial quitInput) sendingEvents = some final ∧
      (injectedChars final.system.channel.queue).Subperm
        (greeting .linux ++ (commandLoop .linux quitInput (passes sendingEvents)).written) := by
  rcases Option.isSome_iff_exists.mp sending_runs with ⟨final, runs⟩
  exact ⟨final, runs, injected_subperm_produced runs⟩

theorem mem_of_mem_senderCalls {events : List Event} {call : SenderCall}
    (call_mem : call ∈ events.flatMap Event.senderCalls) : .sender call ∈ events := by
  rcases List.mem_flatMap.mp call_mem with ⟨event, event_mem, isCall⟩
  cases event with
  | sender same =>
      have callEq : call = same := List.mem_singleton.mp isCall
      subst callEq
      exact event_mem
  | _ => simp [Event.senderCalls] at isCall

/-- If no write fails, what is in the stream and what is still to be sent is what was produced. -/
theorem written_append_unsent_of_run {events : List Event} {final : Pipeline}
    (runs : Transition.run (step platform) (initial input) events = some final)
    (writes : .sender .writeFails ∉ events) :
    final.system.channel.written ++ final.sender.unsent platform =
      greeting platform ++ final.sender.loop.written := by
  rw [written_of_run runs]
  apply (books_of_run runs).conserved
  intro fails
  exact writes (mem_of_mem_senderCalls fails)

theorem accounted_of_run {events : List Event} {final : Pipeline}
    (runs : Transition.run (step platform) (initial input) events = some final)
    (launched : ∀ event ∈ events.flatMap Event.systemEvents, ¬event.LaunchFault)
    (succeeds : ∀ event ∈ events.flatMap Event.systemEvents, event.InjectionSucceeds)
    (writes : .sender .writeFails ∉ events) :
    injectedChars final.system.channel.queue ++ final.system.host.pending ++
        final.system.channel.fifo ++ final.sender.unsent platform =
      greeting platform ++ (commandLoop platform input (passes events)).written := by
  have systemRuns := system_runs_of_run runs
  rcases System.run_shows systemRuns (System.no_execReturned_of_launched launched) with
    ⟨relay, relayRuns, shows⟩
  rw [shows.conservation relayRuns succeeds, written_append_unsent_of_run runs writes,
    (books_of_run runs).loop_eq, passes]

/--
If the program is launched, the injections succeed and no write fails, then at any moment
what was injected, what the relay has in hand, what is in the pipe and what the test program
still has to write make up what its greeting and its loop have produced: as long as the
input lasts, the lines read so far with their line ends.
-/
theorem conserved_of_run {events : List Event} {final : Pipeline}
    (runs : Transition.run (step platform) (initial input) events = some final)
    (launched : ∀ event ∈ events.flatMap Event.systemEvents, ¬event.LaunchFault)
    (succeeds : ∀ event ∈ events.flatMap Event.systemEvents, event.InjectionSucceeds)
    (writes : .sender .writeFails ∉ events) :
    injectedChars final.system.channel.queue ++ final.system.host.pending ++
          final.system.channel.fifo ++ final.sender.unsent platform =
        greeting platform ++ (commandLoop platform input (passes events)).written ∧
      (passes events ≤ (splitLines newline input).length →
        (commandLoop platform input (passes events)).written =
          withLineEnds platform ((splitLines newline input).take (passes events))) := by
  constructor
  · exact accounted_of_run runs launched succeeds writes
  · intro lasts
    exact (commandLoop_through platform input lasts).1

theorem conserved_of_run_sending :
    ∃ final, Transition.run (step .linux) (initial quitInput) sendingEvents = some final ∧
      injectedChars final.system.channel.queue ++ final.system.host.pending ++
            final.system.channel.fifo ++ final.sender.unsent .linux =
          greeting .linux ++ (commandLoop .linux quitInput (passes sendingEvents)).written ∧
        (passes sendingEvents ≤ (splitLines newline quitInput).length →
          (commandLoop .linux quitInput (passes sendingEvents)).written =
            withLineEnds .linux ((splitLines newline quitInput).take (passes sendingEvents))) := by
  rcases Option.isSome_iff_exists.mp sending_runs with ⟨final, runs⟩
  refine ⟨final, runs, conserved_of_run runs ?_ ?_ (by decide)⟩
  · simp [sendingEvents, Event.systemEvents, System.Event.LaunchFault]
  · simp [sendingEvents, Event.systemEvents, System.Event.InjectionSucceeds,
      InjectReturn.complete]

end Sides

end Pipeline

end MiddleMan
