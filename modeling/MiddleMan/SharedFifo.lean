import MiddleMan.Pipeline

/-!
# A FIFO which others use as well

The FIFO has a fixed path, `mkfifo` tolerates that it is there already, and nobody ever
removes it.  So other processes can have it open for reading: a program which an earlier
relay has left behind holds the read end it inherited, and a second relay reads from it.

Here the pipeline runs on Linux beside such bystanders.  Without them it is the pipeline as
it was; with them the test program can connect, and write, though its own terminal never
came to be.
-/

namespace MiddleMan

/-- The pipeline, and how many other processes have the FIFO open for reading. -/
structure SharedFifo where
  pipeline : Pipeline
  bystanders : ℕ
deriving DecidableEq

namespace SharedFifo

/-- An event of the pipeline, or what a bystander does with the FIFO. -/
inductive Event where
  | pipeline (event : Pipeline.Event)
  | bystanderOpens
  | bystanderCloses
  /-- A bystander takes so many bytes out of the pipe, or all that are there. -/
  | bystanderReads (count : ℕ)
deriving DecidableEq

/-- Before the test program starts; some bystanders may be there already. -/
def initial (input : List Byte) (bystanders : ℕ) : SharedFifo :=
  { pipeline := Pipeline.initial input, bystanders := bystanders }

/-- The pipeline after a bystander has taken `count` bytes. -/
def afterReads (pipeline : Pipeline) (count : ℕ) : Pipeline :=
  let channel := pipeline.system.channel
  { pipeline with
    system := { pipeline.system with channel := { channel with fifo := channel.fifo.drop count } } }

/-- One event; the pipeline runs beside the bystanders that are there. -/
def step (shared : SharedFifo) : Event → Option SharedFifo
  | .pipeline event =>
      (shared.pipeline.stepBeside .linux (decide (0 < shared.bystanders)) event).map fun next =>
        { shared with pipeline := next }
  | .bystanderOpens => some { shared with bystanders := shared.bystanders + 1 }
  | .bystanderCloses =>
      if 0 < shared.bystanders then some { shared with bystanders := shared.bystanders - 1 }
      else none
  | .bystanderReads count =>
      if 0 < shared.bystanders then
        some { shared with pipeline := afterReads shared.pipeline count }
      else none

/-- The steps with the state they lead to. -/
inductive Step (shared : SharedFifo) : Event → SharedFifo → Prop where
  | pipeline (event : Pipeline.Event) (next : Pipeline)
      (pipelineStep : shared.pipeline.stepBeside .linux (decide (0 < shared.bystanders)) event =
        some next) :
      Step shared (.pipeline event) { shared with pipeline := next }
  | bystanderOpens : Step shared .bystanderOpens { shared with bystanders := shared.bystanders + 1 }
  | bystanderCloses (present : 0 < shared.bystanders) :
      Step shared .bystanderCloses { shared with bystanders := shared.bystanders - 1 }
  | bystanderReads (count : ℕ) (present : 0 < shared.bystanders) :
      Step shared (.bystanderReads count)
        { shared with pipeline := afterReads shared.pipeline count }

variable {input : List Byte} {bystanders : ℕ} {shared next : SharedFifo} {event : Event}

theorem step_sound (stepEq : shared.step event = some next) : Step shared event next := by
  cases event with
  | pipeline event =>
      simp only [step, Option.map_eq_some_iff] at stepEq
      rcases stepEq with ⟨pipeline, pipelineStep, rfl⟩
      exact .pipeline event pipeline pipelineStep
  | bystanderOpens =>
      simp only [step, Option.some.injEq] at stepEq
      subst next
      exact .bystanderOpens
  | bystanderCloses =>
      simp only [step] at stepEq
      split at stepEq
      · rename_i present
        simp only [Option.some.injEq] at stepEq
        subst next
        exact .bystanderCloses present
      · simp at stepEq
  | bystanderReads count =>
      simp only [step] at stepEq
      split at stepEq
      · rename_i present
        simp only [Option.some.injEq] at stepEq
        subst next
        exact .bystanderReads count present
      · simp at stepEq

/-! ## The pipeline in a shared run -/

/-- The event of the pipeline which the event is. -/
def Event.pipelineEvents : Event → List Pipeline.Event
  | .pipeline event => [event]
  | _ => []

/-- What the test program has put into the pipe. -/
def sent (events : List Event) : List Byte :=
  ((events.flatMap Event.pipelineEvents).flatMap Pipeline.Event.senderCalls).flatMap Sender.bytes

theorem sender_runs_of_run {events : List Event} {final : SharedFifo}
    (runs : Transition.run step (initial input bystanders) events = some final) :
    Transition.run (Sender.step .linux) (Sender.initial input)
      ((events.flatMap Event.pipelineEvents).flatMap Pipeline.Event.senderCalls) =
        some final.pipeline.sender := by
  rw [List.flatMap_assoc]
  refine Transition.run_projects (fun shared => shared.pipeline.sender) ?_ runs
  intro shared event next stepEq
  cases step_sound stepEq with
  | pipeline event pipeline pipelineStep =>
      simpa [Event.pipelineEvents] using (Pipeline.stepBeside_sound pipelineStep).sender_runs
  | bystanderOpens => rfl
  | bystanderCloses present => rfl
  | bystanderReads count present => rfl

theorem written_of_run {events : List Event} {final : SharedFifo}
    (runs : Transition.run step (initial input bystanders) events = some final) :
    final.pipeline.system.channel.written = sent events := by
  refine Transition.history_invariant
    (fun events shared => shared.pipeline.system.channel.written = sent events) rfl ?_ runs
  intro history shared event next writtenEq stepEq
  have sentEq : sent (history ++ [event]) = sent history ++ sent [event] := by
    simp [sent, List.flatMap_append]
  rw [sentEq, ← writtenEq]
  cases step_sound stepEq with
  | pipeline event pipeline pipelineStep =>
      simpa [sent, Event.pipelineEvents] using
        (Pipeline.stepBeside_sound pipelineStep).written_eq
  | bystanderOpens => simp [sent, Event.pipelineEvents]
  | bystanderCloses present => simp [sent, Event.pipelineEvents]
  | bystanderReads count present => simp [sent, Event.pipelineEvents, afterReads]

/-! ## A terminal that cannot be executed -/

/-- Nobody has called `StartMiddleMan`, and `fifo` is left in the pipe of what was written. -/
def notEntered (written fifo : List Byte) : System :=
  { System.initial [] with channel := { Channel.initial with written := written, fifo := fifo } }

/-- Until `MiddleManTerminal` opens the pipe, only the pipe has changed. -/
structure Begun (shared : SharedFifo) : Prop where
  notStarted : shared.pipeline.NotStarted
  untouched : shared.pipeline.terminal ≠ .opening →
    ∃ written fifo, fifo <:+ written ∧ shared.pipeline.system = notEntered written fifo

/-- A call of the test program does not change more than the pipe. -/
theorem untouched_afterSender {pipeline : Pipeline} {written fifo : List Byte}
    (isSuffix : fifo <:+ written) (systemEq : pipeline.system = notEntered written fifo)
    (sender : Sender) (call : SenderCall) :
    ∃ written fifo, fifo <:+ written ∧
      (pipeline.afterSender sender call).system = notEntered written fifo := by
  rcases pipeline.afterSender_cases sender call with ⟨part, rfl, _⟩ | ⟨same, _⟩
  · refine ⟨written ++ part, fifo ++ part, ?_, ?_⟩
    · rcases isSuffix with ⟨gone, rfl⟩
      exact ⟨gone, (List.append_assoc gone fifo part).symm⟩
    · simp [Pipeline.afterSender, systemEq, notEntered, Channel.write]
  · exact ⟨written, fifo, isSuffix, same.trans systemEq⟩

theorem Step.begun (step : Step shared event next) (begun : shared.Begun) : next.Begun := by
  cases step with
  | pipeline event pipeline pipelineStep =>
      have pipelineStep := Pipeline.stepBeside_sound pipelineStep
      refine ⟨pipelineStep.notStarted begun.notStarted, ?_⟩
      intro notOpening
      cases pipelineStep with
      | sender call sender possible senderStep =>
          have wasNotOpening : shared.pipeline.terminal ≠ .opening := by
            rcases Pipeline.terminal_afterSender begun.notStarted senderStep with same | none
            · rwa [← same]
            · simp [none]
          rcases begun.untouched wasNotOpening with ⟨written, fifo, isSuffix, systemEq⟩
          exact untouched_afterSender isSuffix systemEq sender call
      | execlp replaced status => exact begun.untouched (by simp [status])
      | opens status => exact absurd rfl notOpening
      | system event system status possible systemStep => exact absurd status notOpening
  | bystanderOpens => exact ⟨begun.notStarted, begun.untouched⟩
  | bystanderCloses present => exact ⟨begun.notStarted, begun.untouched⟩
  | bystanderReads count present =>
      refine ⟨begun.notStarted, ?_⟩
      intro notOpening
      rcases begun.untouched notOpening with ⟨written, fifo, isSuffix, systemEq⟩
      refine ⟨written, fifo.drop count, (List.drop_suffix _ _).trans isSuffix, ?_⟩
      simp [afterReads, systemEq, notEntered]

/-- The child of the test program has not become the terminal. -/
structure Failed (shared : SharedFifo) : Prop where
  begun : shared.Begun
  terminal_eq : shared.pipeline.terminal = .failed

theorem Step.failed (step : Step shared event next) (failed : shared.Failed) : next.Failed := by
  refine ⟨step.begun failed.begun, ?_⟩
  cases step with
  | pipeline event pipeline pipelineStep =>
      exact (Pipeline.stepBeside_sound pipelineStep).terminal_failed failed.begun.notStarted
        failed.terminal_eq
  | bystanderOpens => exact failed.terminal_eq
  | bystanderCloses present => exact failed.terminal_eq
  | bystanderReads count present => exact failed.terminal_eq

end SharedFifo

end MiddleMan
