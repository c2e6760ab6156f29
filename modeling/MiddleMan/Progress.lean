import MiddleMan.ReadLoop
import MiddleMan.Fidelity

/-!
# The relay can always catch up

From every point of its loop, and with successful calls, the reader thread alone can
empty the pipe into the terminal: it finishes the chunk in hand and then reads the rest
of the stream buffer by buffer.  So no interleaving leaves bytes behind which could not
be delivered any more.
-/

namespace MiddleMan

/-- The call does all it is meant to do: a read takes bytes, an injection is delivered. -/
def ReaderCall.Completes : ReaderCall → Prop
  | .read answer => answer.chunk ≠ []
  | .inject answer => answer.complete = true
  | .test | .endInject => True

namespace Reader

/-- No read fails or finds nothing, and no injection fails. -/
def CallsComplete (calls : List ReaderCall) : Prop :=
  ∀ call ∈ calls, call.Completes

/--
With the given steps the thread injects `text` and leaves `rest` in the pipe; after that it
has nothing in hand.
-/
structure Delivers (platform : Platform) (channel : Channel) (reader : Reader)
    (calls : List ReaderCall) (text rest : List Byte) (channelNext : Channel) (next : Reader) :
    Prop where
  runs : Transition.run (readerStep platform) (channel, reader) calls = some (channelNext, next)
  complete : CallsComplete calls
  injected : injectedChars channelNext.queue = injectedChars channel.queue ++ text
  fifo_eq : channelNext.fifo = rest
  ready : next.pc = .test ∨ next.pc = .read
  continues : next.continueFlag = true

variable {platform : Platform} {channel : Channel} {reader : Reader}

theorem CallsComplete.append {front back : List ReaderCall} (frontComplete : CallsComplete front)
    (backComplete : CallsComplete back) : CallsComplete (front ++ back) := by
  intro call call_mem
  rcases List.mem_append.mp call_mem with front_mem | back_mem
  · exact frontComplete call front_mem
  · exact backComplete call back_mem

theorem Delivers.append {calls later : List ReaderCall} {text more rest left : List Byte}
    {middle final : Channel} {middleReader finalReader : Reader}
    (first : Delivers platform channel reader calls text rest middle middleReader)
    (second : Delivers platform middle middleReader later more left final finalReader) :
    Delivers platform channel reader (calls ++ later) (text ++ more) left final finalReader where
  runs := by
    rw [Transition.run_append, first.runs]
    exact second.runs
  complete := first.complete.append second.complete
  injected := by
    rw [second.injected, first.injected, List.append_assoc]
  fifo_eq := second.fifo_eq
  ready := second.ready
  continues := second.continues

theorem callsComplete_injectSteps (text : List Byte) :
    CallsComplete
      (text.map (fun _ => .inject (InjectReturn.success platform)) ++ [.endInject]) := by
  intro call call_mem
  rcases List.mem_append.mp call_mem with inject_mem | end_mem
  · rcases List.mem_map.mp inject_mem with ⟨_, _, rfl⟩
    exact InjectReturn.complete_success platform
  · have callEq : call = .endInject := List.mem_singleton.mp end_mem
    subst callEq
    trivial

theorem callsComplete_iterationCalls {chunk : List Byte} (nonempty : chunk ≠ []) :
    CallsComplete (iterationCalls platform (.data chunk)) := by
  intro call call_mem
  simp only [iterationCalls, List.mem_cons] at call_mem
  rcases call_mem with rfl | rfl | later
  · trivial
  · exact nonempty
  · split at later
    · simp at later
    · exact callsComplete_injectSteps chunk call later

/-- The thread finishes what it has in hand; where it waits for bytes it has nothing. -/
theorem exists_delivers_pending (platform : Platform) (channel : Channel)
    (looping : reader.Looping) :
    ∃ calls channelNext next,
      Delivers platform channel reader calls reader.pending channel.fifo channelNext next := by
  rcases looping with ⟨continues, notFinished⟩
  have nothing : reader.pc = .test ∨ reader.pc = .read → reader.pending = [] →
      Delivers platform channel reader [] reader.pending channel.fifo channel reader := by
    intro ready noPending
    exact ⟨rfl, by simp [CallsComplete], by simp [noPending], rfl, ready, continues⟩
  cases pcEq : reader.pc with
  | test => exact ⟨[], channel, reader, nothing (Or.inl pcEq) (by simp [pending, pcEq])⟩
  | read => exact ⟨[], channel, reader, nothing (Or.inr pcEq) (by simp [pending, pcEq])⟩
  | inject text =>
      refine ⟨_, _, _, run_injectSteps platform channel reader text pcEq,
        callsComplete_injectSteps text, ?_, rfl, Or.inl rfl, continues⟩
      simp [pending, pcEq, injectedChars_successfulCalls]
  | finished => exact absurd pcEq notFinished

/-- One iteration delivers as much of the stream as fits into the buffer. -/
theorem exists_delivers_chunk (platform : Platform) (channel : Channel)
    (ready : reader.pc = .test ∨ reader.pc = .read) (continues : reader.continueFlag = true)
    (nonempty : channel.fifo ≠ []) :
    ∃ calls channelNext next,
      Delivers platform channel reader calls (channel.fifo.take bufferSize)
        (channel.fifo.drop bufferSize) channelNext next := by
  have possible : (OsRead.data (channel.fifo.take bufferSize)).Possible channel.fifo :=
    ⟨List.length_take_le _ _, List.take_prefix _ _⟩
  have fits : (OsRead.data (channel.fifo.take bufferSize)).Fits := possible.1
  have taken : channel.fifo.take bufferSize ≠ [] := by
    simp [bufferSize, nonempty]
  have complete := @callsComplete_iterationCalls platform _ taken
  rcases run_iterationCalls platform channel ⟨reader.buffer, reader.readBytes, true, channel.queue⟩
      rfl possible rfl with ⟨channelNext, next, runs, queueEq, fifoEq, nextEq⟩
  have injected : injectedChars channelNext.queue =
      injectedChars channel.queue ++ channel.fifo.take bufferSize := by
    rw [queueEq, ReadLoop.injectedChars_body platform _ fits, OsRead.chunk]
  have left : channelNext.fifo = channel.fifo.drop bufferSize := by
    rw [fifoEq, OsRead.chunk, List.length_take, List.drop_eq_drop_iff]
    omega
  have atTest : next.pc = .test := by rw [nextEq]
  have goesOn : next.continueFlag = true := by rw [nextEq]
  -- the iteration begins at the test, which may lie behind the thread already
  rcases ready with pcEq | pcEq
  · have readerEq : reader = ⟨reader.buffer, reader.readBytes, true, .test⟩ := by
      cases reader
      simp_all
    rw [← readerEq] at runs
    exact ⟨_, channelNext, next, runs, complete, injected, left, Or.inl atTest, goesOn⟩
  · have readerEq : reader = ⟨reader.buffer, reader.readBytes, true, .read⟩ := by
      cases reader
      simp_all
    rw [iterationCalls, Transition.run_cons] at runs
    have testStep : readerStep platform
        (channel, ⟨reader.buffer, reader.readBytes, true, .test⟩) .test =
        some (channel, ⟨reader.buffer, reader.readBytes, true, .read⟩) := by
      simp [readerStep, step]
    rw [testStep, Option.bind_some, ← readerEq] at runs
    refine ⟨_, channelNext, next, runs, ?_, injected, left, Or.inl atTest, goesOn⟩
    intro call call_mem
    exact complete call (List.mem_cons_of_mem _ call_mem)

theorem exists_delivers_fifo (platform : Platform) (channel : Channel)
    (ready : reader.pc = .test ∨ reader.pc = .read) (continues : reader.continueFlag = true) :
    ∃ calls channelNext next,
      Delivers platform channel reader calls channel.fifo [] channelNext next := by
  induction sizeEq : channel.fifo.length using Nat.strong_induction_on
    generalizing channel reader with
  | h size ih =>
      by_cases nonempty : channel.fifo = []
      · refine ⟨[], channel, reader, rfl, by simp [CallsComplete], ?_, nonempty, ready, continues⟩
        simp [nonempty]
      rcases exists_delivers_chunk platform channel ready continues nonempty with
        ⟨calls, middle, middleReader, first⟩
      by_cases fits : channel.fifo.length ≤ bufferSize
      · rw [List.take_of_length_le fits, List.drop_of_length_le fits] at first
        exact ⟨calls, middle, middleReader, first⟩
      · -- a full buffer has been taken, so less is left in the pipe
        have shorter : middle.fifo.length < size := by
          rw [first.fifo_eq, List.length_drop, ← sizeEq]
          simp only [bufferSize] at fits ⊢
          omega
        rcases ih _ shorter middle first.ready first.continues rfl with
          ⟨later, final, finalReader, second⟩
        have both := first.append second
        rw [first.fifo_eq, List.take_append_drop] at both
        exact ⟨_, final, finalReader, both⟩

/-- The thread can deliver what it has in hand and then the whole stream. -/
theorem exists_delivers (platform : Platform) (channel : Channel) (looping : reader.Looping) :
    ∃ calls channelNext next,
      Delivers platform channel reader calls (reader.pending ++ channel.fifo) [] channelNext
        next := by
  rcases exists_delivers_pending platform channel looping with
    ⟨calls, middle, middleReader, first⟩
  rcases exists_delivers_fifo platform middle first.ready first.continues with
    ⟨later, final, finalReader, second⟩
  have both := first.append second
  rw [first.fifo_eq] at both
  exact ⟨_, final, finalReader, both⟩

end Reader

namespace System

variable {platform : Platform} {system : System}

/-- The system after steps of the reader thread, which has become `reader`. -/
def afterReader (system : System) (channel : Channel) (reader : Reader) : System :=
  { system with channel := channel }.setProcess { system.host with reader := some reader } .host

/-- What the reader thread can do with the pipe it can do in the system. -/
theorem run_hostReader (running : system.host.Running) {calls : List ReaderCall}
    {reader next : Reader} (hasReader : system.host.reader = some reader) {channelNext : Channel}
    (runs : Transition.run (readerStep platform) (system.channel, reader) calls =
      some (channelNext, next)) :
    Transition.run (step platform) system (calls.map fun call => .reader .host call) =
      some (system.afterReader channelNext next) := by
  induction calls generalizing system reader with
  | nil =>
      simp only [Transition.run_nil, Option.some.injEq, Prod.mk.injEq] at runs
      rcases runs with ⟨rfl, rfl⟩
      rw [List.map_nil, Transition.run_nil, afterReader, ← hasReader]
      rfl
  | cons call calls ih =>
      rcases Option.bind_eq_some_iff.mp runs with ⟨⟨middle, middleReader⟩, stepEq, rest⟩
      have first : step platform system (.reader .host call) =
          some (system.afterReader middle middleReader) := by
        simp only [readerStep] at stepEq
        simp only [step, stepReader, process, if_pos running, hasReader, stepEq, Option.map_some]
        rfl
      rw [List.map_cons, Transition.run_cons, first, Option.bind_some]
      exact @ih (system.afterReader middle middleReader) running middleReader rfl rest

/--
If the program is launched and the injections succeed, then from every reachable state with
a reader thread its steps alone lead to one in which all that was written is in the terminal.
-/
theorem exists_caughtUp {others : List Child} {events : List Event} {final : System}
    (runs : Transition.run (step platform) (initial others) events = some final)
    (launched : ∀ event ∈ events, ¬event.LaunchFault)
    (succeeds : ∀ event ∈ events, event.InjectionSucceeds) (running : final.host.Running)
    {reader : Reader} (hasReader : final.host.reader = some reader) :
    ∃ calls caughtUp, Reader.CallsComplete calls ∧
      Transition.run (step platform) final (calls.map fun call => .reader .host call) =
          some caughtUp ∧
        injectedChars caughtUp.channel.queue = final.channel.written := by
  have looping := (wellFormed_of_run runs).1.looping running hasReader
  rcases Reader.exists_delivers platform final.channel looping with
    ⟨calls, channelNext, next, delivers⟩
  refine ⟨calls, final.afterReader channelNext next, delivers.complete,
    run_hostReader running hasReader delivers.runs, ?_⟩
  have inHand : final.host.pending = reader.pending := by
    rw [Process.pending, hasReader]
  rcases run_shows runs (no_execReturned_of_launched launched) with ⟨relay, relayRuns, shows⟩
  have injected : injectedChars (final.afterReader channelNext next).channel.queue =
      injectedChars final.channel.queue ++ (reader.pending ++ final.channel.fifo) :=
    delivers.injected
  rw [injected, ← inHand, ← List.append_assoc, shows.conservation relayRuns succeeds]

end System

end MiddleMan
