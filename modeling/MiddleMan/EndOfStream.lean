import MiddleMan.Pipeline
import MiddleMan.Outcome

/-!
# `SIGPIPE` and the end of the stream, on Linux

The two ways in which one side of the pipe learns that the other has gone.  The test
program gets `SIGPIPE` only after the relay and the program are gone: the program holds the
read end it inherited, though it never reads from it.  The relay finds the end of the
stream only after the test program was killed, since that never closes its end.
-/

namespace MiddleMan

namespace Pipeline

variable {input : List Byte} {history : List Event} {pipeline next : Pipeline} {event : Event}

/-- The ends of the pipe after the events `history`. -/
structure Ends (input : List Byte) (history : List Event) (pipeline : Pipeline) : Prop where
  handshake : pipeline.Handshake .linux
  books : pipeline.sender.Books .linux input (history.flatMap Event.senderCalls)
  kept : pipeline.system.ReadEndKept
  connected : pipeline.system.readEndOpen = true → pipeline.sender.PipeOpen
  closed : pipeline.sender.ended = some .sigpipe →
    pipeline.terminal = .opening ∧ pipeline.system.host.main ≠ .constructPipe ∧
      pipeline.system.readEndOpen = false

theorem ends_initial (input : List Byte) : Ends input [] (initial input) where
  handshake := handshake_initial input
  books := Sender.books_initial .linux input
  kept := System.readEndKept_initial []
  connected := by
    have closed : (initial input).system.readEndOpen = false := rfl
    simp [closed]
  closed := by simp [initial, Sender.initial]

theorem afterSender_readEnds (pipeline : Pipeline) (sender : Sender) (call : SenderCall) :
    (pipeline.afterSender sender call).system.host = pipeline.system.host ∧
      (pipeline.afterSender sender call).system.readEndOpen = pipeline.system.readEndOpen := by
  cases call <;> exact ⟨rfl, rfl⟩

theorem Step.readEndKept (step : Step .linux false pipeline event next)
    (kept : pipeline.system.ReadEndKept) : next.system.ReadEndKept := by
  refine Transition.invariant kept ?_ step.system_runs
  intro system event next kept stepEq
  exact (System.step_sound stepEq).readEndKept kept

theorem Step.books (step : Step .linux false pipeline event next)
    (books : pipeline.sender.Books .linux input (history.flatMap Event.senderCalls)) :
    next.sender.Books .linux input ((history ++ [event]).flatMap Event.senderCalls) := by
  rw [List.flatMap_append]
  cases step with
  | sender call sender possible senderStep =>
      rw [afterSender_sender]
      simpa [Event.senderCalls] using (Sender.step_sound senderStep).books books
  | execlp replaced status => simpa [Event.senderCalls] using books
  | opens status => simpa [Event.senderCalls] using books
  | system event system status possible systemStep => simpa [Event.senderCalls] using books

theorem Step.ends (step : Step .linux false pipeline event next)
    (ends : Ends input history pipeline) :
    Ends input (history ++ [event]) next := by
  refine ⟨step.handshake ends.handshake, step.books ends.books, step.readEndKept ends.kept,
    ?_, ?_⟩
  · cases step with
    | sender call sender possible senderStep =>
        rw [afterSender_sender, (pipeline.afterSender_readEnds sender call).2]
        intro opened
        rcases (Sender.step_sound senderStep).pipeOpen (ends.connected opened) with
          still | ⟨result, rfl, failed⟩
        · exact still
        · rw [(possible rfl).2 failed] at opened
          simp at opened
    | execlp replaced status => exact ends.connected
    | opens status => exact ends.connected
    | system event system status possible systemStep =>
        intro opened
        rcases (System.step_sound systemStep).readEndOpen_cases ends.kept opened with
          before | ⟨result, rfl, nonneg⟩
        · exact ends.connected before
        · exact possible nonneg
  · cases step with
    | sender call sender possible senderStep =>
        intro ended
        rw [afterSender_sender] at ended
        have senderStep := Sender.step_sound senderStep
        rcases senderStep.ended_cases ends.books.inLoop with
          none | ⟨one, _⟩ | ⟨_, rfl⟩ | ⟨isKilled, _⟩
        · simp [none] at ended
        · simp [one] at ended
        · have opening := ends.handshake.connected rfl possible.1
          have noReader := possible.2.1
          simp only [hasReader, opening, beq_self_eq_true, Bool.true_and, Bool.or_eq_false_iff,
            beq_eq_false_iff_ne] at noReader
          exact ⟨opening, noReader⟩
        · simp [isKilled] at ended
    | execlp replaced status =>
        intro ended
        simp [(ends.closed ended).1] at status
    | opens status =>
        intro ended
        simp [(ends.closed ended).1] at status
    | system event system status possible systemStep =>
        intro ended
        rcases ends.closed ended with ⟨opening, tried, closed⟩
        exact ⟨opening, (System.step_sound systemStep).readEndClosed ends.kept tried closed⟩

theorem ends_of_run {events : List Event} {final : Pipeline}
    (runs : Transition.run (step .linux) (initial input) events = some final) :
    Ends input events final :=
  Transition.history_invariant (Ends input) (ends_initial input)
    (fun _ _ _ _ ends stepEq => (step_sound stepEq).ends ends) runs

/-- A host which has tried to open the pipe and does not hold it has ended, or it failed. -/
theorem host_of_readEndClosed {events : List Event} {final : Pipeline}
    (runs : Transition.run (step .linux) (initial input) events = some final)
    (tried : final.system.host.main ≠ .constructPipe)
    (closed : final.system.host.openHandles.holdsReadEnd = false) :
    final.system.host.main = .dead ∨ (∃ exit, final.system.host.main = .left exit) ∨
      .main .host (.openPipe invalidHandle) ∈ events.flatMap Event.systemEvents := by
  have systemRuns : Transition.run (System.step .linux) (System.entering [] [])
      (events.flatMap Event.systemEvents) = some final.system := system_runs_of_run runs
  rcases System.opened_of_run (by simp) systemRuns with ⟨descriptor, created, opened⟩
  have born : final.system.host.pipe ≠ .unborn := fun unborn => tried (opened.atStart.mpr unborn)
  have openPipe_mem := System.main_mem_of_hostCall (opened.openPipe_mem born)
  by_cases failed : descriptor = invalidHandle
  · subst descriptor
    exact Or.inr (Or.inr openPipe_mem)
  · -- the read end is in the table for good, so the process cannot be there any more
    have isOpen : final.system.host.table.inherited.holdsReadEnd = true := by
      rw [HandleTable.holdsReadEnd_iff]
      refine ⟨GeneralPipe.resource .linux descriptor, List.mem_filter.mpr ⟨?_, rfl⟩, rfl⟩
      rw [opened.table_eq]
      simp [GeneralPipe.leaked, GeneralPipe.resources, failed]
    simp only [Process.openHandles] at closed
    split at closed
    · rename_i exit atPc
      exact Or.inr (Or.inl ⟨exit, atPc⟩)
    · rename_i atPc
      exact Or.inl atPc
    · simp [isOpen] at closed
    · rw [HandleTable.holdsReadEnd_of_inherited isOpen] at closed
      simp at closed

/--
On Linux the test program is killed by `SIGPIPE` only if no process reads from the pipe any
more and the program has ended or was never started: the relay's process has died or left
`StartMiddleMan`, or it could not open the pipe.
-/
theorem sigpipe_of_run {events : List Event} {final : Pipeline}
    (runs : Transition.run (step .linux) (initial input) events = some final)
    (ended : final.sender.ended = some .sigpipe) :
    final.system.program ≠ .running ∧
      (∀ who process, final.system.process who = some process → process.Running →
        process.reader = none) ∧
        (final.system.host.main = .dead ∨ (∃ exit, final.system.host.main = .left exit) ∨
          .main .host (.openPipe invalidHandle) ∈ events.flatMap Event.systemEvents) := by
  have ends := ends_of_run runs
  rcases ends.closed ended with ⟨_, tried, closed⟩
  refine ⟨?_, ?_, ?_⟩
  · intro running
    rw [ends.kept.readEndOpen_of_running running] at closed
    simp at closed
  · intro who process present running
    by_contra hasReader
    rcases Option.ne_none_iff_exists'.mp hasReader with ⟨reader, readerEq⟩
    rw [ends.kept.wellFormed.readEndOpen_of_reader present running readerEq] at closed
    simp at closed
  · apply host_of_readEndClosed runs tried
    rw [System.readEndOpen, Bool.or_eq_false_iff] at closed
    exact closed.1

/-- Until the relay is about to read. -/
def readingEvents : List Event :=
  [.sender (.createPipe 0 false), .sender (.fork 100), .execlp true, .opens,
    .sender (.connect 3), .system (.main .host (.openPipe 3)), .system (.main .host .checkPipe),
    .system (.main .host (.fork 101)), .system (.main .forked (.execlp true)),
    .system (.main .host .storePid), .system (.main .host (.startThread (some Buffer.zero))),
    .system (.reader .host .test)]

/-- The program ends, `StartMiddleMan` aborts, and the test program has a line to write. -/
def abandonedEvents : List Event :=
  readingEvents ++
    [.sender .getline, .system .programExit, .system (.main .host (.wait (.reaped 101))),
      .system (.main .host .return0), .system (.main .host .destroy),
      .system (.main .host .die), .sender .sigpipe]

theorem sigpipe_of_run_abandoned :
    ∃ final, Transition.run (step .linux) (initial quitInput) abandonedEvents = some final ∧
      final.system.program ≠ .running ∧
        (∀ who process, final.system.process who = some process → process.Running →
          process.reader = none) ∧
          (final.system.host.main = .dead ∨ (∃ exit, final.system.host.main = .left exit) ∨
            .main .host (.openPipe invalidHandle) ∈
              abandonedEvents.flatMap Event.systemEvents) :=
  ⟨_, rfl, @sigpipe_of_run quitInput abandonedEvents _ rfl rfl⟩

/--
On Linux a reader finds the end of the stream only if the test program was killed from
outside: by itself that neither closes its end of the pipe nor ends while somebody reads.
-/
theorem endOfStream_of_run {events : List Event} {final : Pipeline}
    (runs : Transition.run (step .linux) (initial input) events = some final) {who : Who}
    (found : .system (.reader who (.read (.data []))) ∈ events) : .sender .kill ∈ events := by
  rcases Transition.step_of_mem runs found with
    ⟨front, back, before, after, rfl, frontRuns, stepEq, _⟩
  have ends := ends_of_run frontRuns
  have killed : before.sender.ended = some .killed := by
    cases step_sound stepEq with
    | system event system status possible systemStep =>
        rcases possible with ⟨_, _, noWriter⟩
        have opened : before.system.readEndOpen = true := by
          cases System.step_sound systemStep with
          | reader who call process reader readerNext channel present running hasReader
              readerStep =>
              exact ends.kept.wellFormed.readEndOpen_of_reader present running hasReader
        have connected := ends.connected opened
        simp only [hasWriter, connected, decide_true, Bool.and_true, beq_eq_false_iff_ne]
          at noWriter
        cases endedEq : before.sender.ended with
        | none => exact absurd endedEq noWriter
        | some how =>
            cases how with
            | exited code =>
                have atStart := (ends.books.exited code endedEq).2
                rw [ends.handshake.notStarted atStart] at status
                simp at status
            | sigpipe =>
                rw [(ends.closed endedEq).2.2] at opened
                simp at opened
            | killed => rfl
  apply List.mem_append_left
  exact mem_of_mem_senderCalls (ends.books.killed killed)

/-- The relay is about to read when the test program is killed. -/
def killedEvents : List Event :=
  readingEvents ++ [.sender .kill, .system (.reader .host (.read (.data [])))]

theorem endOfStream_of_run_killed :
    ∃ final, Transition.run (step .linux) (initial quitInput) killedEvents = some final ∧
      .sender .kill ∈ killedEvents :=
  ⟨_, rfl, @endOfStream_of_run quitInput killedEvents _ rfl .host (by decide)⟩

end Pipeline

end MiddleMan
