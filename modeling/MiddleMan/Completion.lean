import MiddleMan.EndOfStream

/-!
# Everything the test program has read can arrive

If nothing has failed, no interleaving leads to a state in which a line is stuck, however
little the pipe holds.  As long as the test program and the relay are there, the reader
thread can empty the pipe, then the test program can write as much as there is room for,
and so on until nothing is left to be sent.
-/

namespace MiddleMan

namespace Pipeline

/-- A pipe of the given capacity has room for what the event puts into it. -/
def HasRoom (capacity : ℕ) (pipeline : Pipeline) : Event → Prop
  | .sender call => pipeline.sender.Fits capacity pipeline.system.channel.fifo.length call
  | _ => True

instance (capacity : ℕ) (pipeline : Pipeline) (event : Event) :
    Decidable (pipeline.HasRoom capacity event) := by
  cases event <;> unfold HasRoom <;> infer_instance

/-- One step, if the pipe holds no more than `capacity` bytes and nobody else has it open. -/
def stepWithin (platform : Platform) (capacity : ℕ) (pipeline : Pipeline) (event : Event) :
    Option Pipeline :=
  if pipeline.HasRoom capacity event then pipeline.step platform event else none

/-- The test program goes on with what it has begun, or a call of the reader thread succeeds. -/
def Event.GoesOn : Event → Prop
  | .sender call => Sender.Continues call
  | .system (.reader .host call) => call.Completes
  | _ => False

/-- What is possible in a pipe of some capacity is possible. -/
theorem run_of_runWithin {platform : Platform} {capacity : ℕ} {pipeline final : Pipeline}
    {events : List Event}
    (runs : Transition.run (stepWithin platform capacity) pipeline events = some final) :
    Transition.run (step platform) pipeline events = some final := by
  have projects : ∀ state event next, stepWithin platform capacity state event = some next →
      Transition.run (step platform) (id state) [event] = some (id next) := by
    intro state event next stepEq
    simp only [stepWithin] at stepEq
    split at stepEq
    · simp [stepEq]
    · simp at stepEq
  simpa using Transition.run_projects id projects runs

/-- Steps of the relay's reader thread. -/
def readerEvents (calls : List ReaderCall) : List Event :=
  calls.map fun call => .system (.reader .host call)

variable {platform : Platform} {capacity : ℕ} {input target : List Byte} {pipeline : Pipeline}

theorem goesOn_readerEvents {calls : List ReaderCall} (complete : Reader.CallsComplete calls) :
    ∀ event ∈ readerEvents calls, event.GoesOn := by
  intro event event_mem
  rcases List.mem_map.mp event_mem with ⟨call, call_mem, rfl⟩
  exact complete call call_mem

/-- The pipe lets the relay take any step, but for a read of the end of the stream. -/
theorem systemPossible_reader {who : Who} {call : ReaderCall}
    (notEnd : call ≠ .read (.data [])) :
    pipeline.SystemPossible platform (.reader who call) := by
  cases call with
  | read answer =>
      cases answer with
      | data chunk =>
          cases chunk with
          | nil => exact absurd rfl notEnd
          | cons byte chunk => trivial
      | failed => trivial
  | _ => trivial

/-- What the relay can do on its own it can do in the pipeline. -/
theorem run_reader (opening : pipeline.terminal = .opening) {calls : List ReaderCall}
    (complete : Reader.CallsComplete calls) {final : System}
    (runs : Transition.run (System.step platform) pipeline.system
      (calls.map fun call => .reader .host call) = some final) :
    Transition.run (stepWithin platform capacity) pipeline (readerEvents calls) =
      some { pipeline with system := final } := by
  induction calls generalizing pipeline with
  | nil =>
      simp only [List.map_nil, Transition.run_nil, Option.some.injEq] at runs
      subst final
      rfl
  | cons call calls ih =>
      rcases List.forall_mem_cons.mp complete with ⟨now, later⟩
      rw [List.map_cons, Transition.run_cons] at runs
      rcases Option.bind_eq_some_iff.mp runs with ⟨middle, stepEq, rest⟩
      have possible : pipeline.SystemPossible platform (.reader .host call) := by
        apply systemPossible_reader
        rintro rfl
        exact now rfl
      have first : stepWithin platform capacity pipeline (.system (.reader .host call)) =
          some { pipeline with system := middle } := by
        simp only [stepWithin, HasRoom, step, stepBeside]
        rw [if_pos ⟨opening, possible⟩, stepEq]
        rfl
      rw [readerEvents, List.map_cons, Transition.run_cons, first, Option.bind_some]
      exact @ih { pipeline with system := middle } opening later rest

/-- The test program is connected, or connecting, with a relay which reads. -/
structure Flowing (platform : Platform) (pipeline : Pipeline) : Prop where
  opening : pipeline.terminal = .opening
  reads : pipeline.hasReader = true
  launched : ¬(pipeline.sender.pc = .createPipe ∨ pipeline.sender.pc = .launch)
  connected : 0 ≤ pipeline.sender.pipe ∨ platform = .linux ∧ pipeline.sender.pc = .connect

/-- While the pipe has a reader, nothing but its room keeps the test program from going on. -/
theorem Flowing.senderPossible (flowing : pipeline.Flowing platform) {call : SenderCall}
    (continues : Sender.Continues call) {next : Sender}
    (senderStep : pipeline.sender.step platform call = some next) :
    pipeline.SenderPossible platform false call := by
  cases Sender.step_sound senderStep with
  | connect result pipe running atPc isResult samePipe =>
      intro _
      refine ⟨fun _ => Or.inl flowing.opening, ?_⟩
      intro failed
      exact absurd failed (not_lt.mpr continues)
  | write rest part messages running atPc nonempty isPrefix =>
      exact ⟨flowing.connected.resolve_right (by simp [atPc]), Or.inl flowing.reads⟩
  | _ => exact absurd continues id

/-- Going on, the test program changes nothing outside of it but the pipe. -/
theorem afterSender_of_continues {call : SenderCall} (continues : Sender.Continues call)
    (sender : Sender) :
    pipeline.afterSender sender call =
      { pipeline with
        sender := sender
        system :=
          { pipeline.system with
            channel := pipeline.system.channel.write (Sender.bytes call) } } := by
  cases call with
  | connect result => simp [afterSender, Sender.bytes, Channel.write]
  | write part => rfl
  | _ => exact absurd continues id

theorem Flowing.afterSender (flowing : pipeline.Flowing platform) {call : SenderCall}
    (continues : Sender.Continues call) {next : Sender}
    (senderStep : pipeline.sender.step platform call = some next) :
    (pipeline.afterSender next call).Flowing platform := by
  have step := Sender.step_sound senderStep
  rw [afterSender_of_continues continues]
  refine ⟨flowing.opening, flowing.reads, ?_,
    Or.inl (step.pipe_nonneg continues flowing.connected)⟩
  intro atStart
  exact flowing.launched (step.start_cases atStart).1

/-! ## A schedule for the rest -/

/--
Both sides go on, and what has arrived, what is in hand, what is in the pipe and what is
still to be sent make up `target`.
-/
structure Underway (platform : Platform) (target : List Byte) (pipeline : Pipeline) : Prop where
  flowing : pipeline.Flowing platform
  alive : pipeline.sender.ended = none
  noEmpty : pipeline.sender.pc.NoEmptyMessage
  running : pipeline.system.host.Running
  looping : ∃ reader, pipeline.system.host.reader = some reader ∧ reader.Looping
  accounted :
    injectedChars pipeline.system.channel.queue ++ pipeline.system.host.pending ++
        pipeline.system.channel.fifo ++ pipeline.sender.unsent platform =
      target

/-- The reader thread empties the pipe. -/
theorem Underway.exists_drained (underway : pipeline.Underway platform target) :
    ∃ calls drained, Reader.CallsComplete calls ∧
      Transition.run (stepWithin platform capacity) pipeline (readerEvents calls) =
          some drained ∧
        drained.Underway platform target ∧ drained.system.channel.fifo = [] ∧
          drained.sender = pipeline.sender ∧
            injectedChars drained.system.channel.queue ++ pipeline.sender.unsent platform =
              target := by
  rcases underway.looping with ⟨reader, present, looping⟩
  rcases Reader.exists_delivers platform pipeline.system.channel looping with
    ⟨calls, channelNext, next, delivers⟩
  have drains := System.run_hostReader underway.running present delivers.runs
  have inHand : pipeline.system.host.pending = reader.pending := by
    rw [Process.pending, present]
  have nothing : next.pending = [] := by
    rcases delivers.ready with atPc | atPc <;> simp [Reader.pending, atPc]
  have stillLooping : next.Looping := by
    refine ⟨delivers.continues, ?_⟩
    rcases delivers.ready with atPc | atPc <;> simp [atPc]
  have arrived : injectedChars channelNext.queue ++ pipeline.sender.unsent platform = target := by
    rw [delivers.injected, ← List.append_assoc, ← inHand, underway.accounted]
  refine ⟨calls, _, delivers.complete,
    run_reader underway.flowing.opening delivers.complete drains, ?_, delivers.fifo_eq, rfl,
    arrived⟩
  refine ⟨⟨underway.flowing.opening, ?_, underway.flowing.launched, underway.flowing.connected⟩,
    underway.alive, underway.noEmpty, underway.running, ⟨next, rfl, stillLooping⟩, ?_⟩
  · exact underway.flowing.reads
  · have pendingEq : (pipeline.system.afterReader channelNext next).host.pending = [] := nothing
    have fifoEq : (pipeline.system.afterReader channelNext next).channel.fifo = [] :=
      delivers.fifo_eq
    rw [pendingEq, fifoEq, List.append_nil, List.append_nil]
    exact arrived

/-- The test program writes into an empty pipe, or connects. -/
theorem Underway.exists_next (underway : pipeline.Underway platform target)
    (room : 0 < capacity) (empty : pipeline.system.channel.fifo = [])
    (unsent : pipeline.sender.unsent platform ≠ []) :
    ∃ call next, Sender.Continues call ∧
      stepWithin platform capacity pipeline (.sender call) = some next ∧
        next.Underway platform target ∧
          next.sender.owed (next.sender.unsent platform).length <
            pipeline.sender.owed (pipeline.sender.unsent platform).length := by
  rcases Sender.exists_continues room underway.alive underway.noEmpty underway.flowing.launched
    unsent with ⟨call, next, continues, fits, senderStep⟩
  have possible := underway.flowing.senderPossible continues senderStep
  have step := Sender.step_sound senderStep
  have unsentEq := step.unsent_eq continues
  refine ⟨call, pipeline.afterSender next call, continues, ?_, ?_, ?_⟩
  · have hasRoom : pipeline.HasRoom capacity (.sender call) := by
      rw [HasRoom, empty]
      exact fits
    simp only [stepWithin, if_pos hasRoom, Pipeline.step, stepBeside, if_pos possible, senderStep,
      Option.map_some]
  · refine ⟨underway.flowing.afterSender continues senderStep, ?_, ?_, ?_, ?_, ?_⟩
    · rw [afterSender_sender]
      exact step.ended_eq_none continues
    · rw [afterSender_sender]
      exact step.noEmptyMessage underway.noEmpty
    · rw [afterSender_of_continues continues]
      exact underway.running
    · rw [afterSender_of_continues continues]
      exact underway.looping
    · rw [afterSender_of_continues continues, ← underway.accounted, unsentEq]
      simp [Channel.write]
  · have positive : 0 < (pipeline.sender.unsent platform).length :=
      List.length_pos_of_ne_nil unsent
    have less := (step.owed_le underway.flowing.launched positive).2 continues
    rw [afterSender_sender]
    simpa [unsentEq] using less

/-- Reading and writing by turns, the two sides bring everything to the terminal. -/
theorem Underway.exists_schedule (underway : pipeline.Underway platform target)
    (room : 0 < capacity) :
    ∃ schedule delivered, (∀ event ∈ schedule, event.GoesOn) ∧
      Transition.run (stepWithin platform capacity) pipeline schedule = some delivered ∧
        injectedChars delivered.system.channel.queue = target := by
  induction owedEq : pipeline.sender.owed (pipeline.sender.unsent platform).length
    using Nat.strong_induction_on generalizing pipeline with
  | h owed ih =>
      rcases @underway.exists_drained _ capacity with
        ⟨calls, drained, complete, drains, stillUnderway, empty, senderEq, arrived⟩
      have readerGoesOn := goesOn_readerEvents complete
      by_cases nothing : pipeline.sender.unsent platform = []
      · refine ⟨readerEvents calls, drained, readerGoesOn, drains, ?_⟩
        rwa [nothing, List.append_nil] at arrived
      rw [← senderEq] at nothing owedEq
      rcases stillUnderway.exists_next room empty nothing with
        ⟨call, next, continues, stepEq, nextUnderway, less⟩
      rcases ih _ (owedEq ▸ less) nextUnderway rfl with
        ⟨later, delivered, laterGoesOn, laterRuns, arrives⟩
      refine ⟨readerEvents calls ++ .sender call :: later, delivered, ?_, ?_, arrives⟩
      · intro event event_mem
        rcases List.mem_append.mp event_mem with reader_mem | event_mem
        · exact readerGoesOn event reader_mem
        · rcases List.mem_cons.mp event_mem with rfl | later_mem
          · exact continues
          · exact laterGoesOn event later_mem
      · rw [Transition.run_append, drains, Option.bind_some, Transition.run_cons, stepEq,
          Option.bind_some, laterRuns]

theorem flowing_of_run {events : List Event} {final : Pipeline}
    (runs : Transition.run (step platform) (initial input) events = some final)
    (alive : final.sender.ended = none) (running : final.system.host.Running)
    (present : final.system.host.reader ≠ none) : final.Flowing platform := by
  rcases Option.ne_none_iff_exists'.mp present with ⟨reader, readerEq⟩
  have handshake := handshake_of_run runs
  have wellFormed := System.wellFormed_of_run (system_runs_of_run runs)
  have opening : final.terminal = .opening := by
    by_contra notOpening
    rw [handshake.untouched notOpening] at readerEq
    simp [System.initial, System.entering, Process.entering] at readerEq
  have opened : final.system.readEndOpen = true :=
    @System.WellFormed.readEndOpen_of_reader _ _ wellFormed .host _ rfl running _ readerEq
  have launched : ¬(final.sender.pc = .createPipe ∨ final.sender.pc = .launch) := by
    intro atStart
    rw [handshake.notStarted atStart] at opening
    simp at opening
  refine ⟨opening, by simp [hasReader, opening, opened], launched, ?_⟩
  cases platform with
  | linux =>
      rcases (ends_of_run runs).connected opened with connecting | connected
      · exact Or.inr ⟨rfl, connecting⟩
      · exact Or.inl connected
  | windows =>
      refine Or.inl ((books_of_run runs).opened rfl alive ?_)
      intro atPc
      exact launched (Or.inl atPc)

/--
If the program is launched, the injections succeed and no write fails: from every reachable
state in which the test program has not ended and the relay's reader thread runs, steps by
which the two go on lead to one in which everything the greeting and the command loop have
produced is in the terminal.  The pipe need not hold more than one byte for that.
-/
theorem exists_delivered {events : List Event} {final : Pipeline}
    (runs : Transition.run (step platform) (initial input) events = some final)
    (launched : ∀ event ∈ events.flatMap Event.systemEvents, ¬event.LaunchFault)
    (succeeds : ∀ event ∈ events.flatMap Event.systemEvents, event.InjectionSucceeds)
    (writes : .sender .writeFails ∉ events) (alive : final.sender.ended = none)
    (running : final.system.host.Running) {reader : Reader}
    (present : final.system.host.reader = some reader) (room : 0 < capacity) :
    ∃ schedule delivered, (∀ event ∈ schedule, event.GoesOn) ∧
      Transition.run (stepWithin platform capacity) final schedule = some delivered ∧
        injectedChars delivered.system.channel.queue =
          greeting platform ++ (commandLoop platform input (passes events)).written := by
  have wellFormed := System.wellFormed_of_run (system_runs_of_run runs)
  have looping := wellFormed.1.looping running present
  have underway : final.Underway platform
      (greeting platform ++ (commandLoop platform input (passes events)).written) := by
    refine ⟨flowing_of_run runs alive running (by simp [present]), alive,
      (books_of_run runs).noEmpty, running, ⟨reader, present, looping⟩, ?_⟩
    exact accounted_of_run runs launched succeeds writes
  exact underway.exists_schedule room

/-- A pipe of Linux holds 64 KiB. -/
theorem exists_delivered_sending :
    ∃ final, Transition.run (step .linux) (initial quitInput) sendingEvents = some final ∧
      ∃ schedule delivered, (∀ event ∈ schedule, event.GoesOn) ∧
        Transition.run (stepWithin .linux 65536) final schedule = some delivered ∧
          injectedChars delivered.system.channel.queue =
            greeting .linux ++ (commandLoop .linux quitInput (passes sendingEvents)).written := by
  refine ⟨_, rfl, ?_⟩
  refine @exists_delivered .linux 65536 quitInput sendingEvents _ rfl ?_ ?_ (by decide) rfl
    (by decide) _ rfl (by decide)
  · simp [sendingEvents, Event.systemEvents, System.Event.LaunchFault]
  · simp [sendingEvents, Event.systemEvents, System.Event.InjectionSucceeds,
      InjectReturn.complete]

end Pipeline

end MiddleMan
