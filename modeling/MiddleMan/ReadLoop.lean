import MiddleMan.PipeReader

/-!
# The loop of the reader thread as a whole

`pipeReader` runs `while (Continue) { ... }` iteration by iteration against a sequence of
answers of the read call, with every injection succeeding.  The stream may end: from
then on the read call answers `endOfStream` for ever.

`run_iterationCalls` connects the loop with the single steps of `Reader.step`.
-/

namespace MiddleMan

/-- The variables of the lambda between two iterations, and the terminal's input queue. -/
structure ReadLoop where
  buffer : Buffer
  readBytes : ℕ
  /-- `Continue` -/
  continueFlag : Bool
  queue : List TermInput
deriving DecidableEq

namespace ReadLoop

/-- Before the first pass. -/
def start (buffer : Buffer) : ReadLoop :=
  { buffer := buffer, readBytes := 0, continueFlag := true, queue := [] }

/-- The calls of `InjectInput(str)` when all of them succeed. -/
def successfulCalls (platform : Platform) (str : List Byte) : List (Byte × InjectReturn) :=
  str.map fun character => (character, InjectReturn.success platform)

/-- One pass of the loop. -/
def body (platform : Platform) (loop : ReadLoop) (answer : OsRead) : ReadLoop :=
  let result := GeneralPipe.read platform loop.buffer answer
  let loop := { loop with buffer := result.buffer, readBytes := result.readBytes }
  if result.ok then
    let str := result.buffer.stdString (castInt result.readBytes)
    { loop with queue := loop.queue ++ injectInput (successfulCalls platform str) }
  else loop

end ReadLoop

/-- The state after some number of iterations; a loop whose `Continue` is false has stopped. -/
def pipeReader (platform : Platform) (buffer : Buffer) (reads : ℕ → OsRead) : ℕ → ReadLoop
  | 0 => ReadLoop.start buffer
  | iterations + 1 =>
      let loop := pipeReader platform buffer reads iterations
      if loop.continueFlag then loop.body platform (reads iterations) else loop

/-- The bytes a read takes. -/
def OsRead.chunk : OsRead → List Byte
  | .data chunk => chunk
  | .failed => []

/-- The read takes no more than the buffer holds. -/
def OsRead.Fits (answer : OsRead) : Prop :=
  answer.chunk.length ≤ bufferSize

/-- The read call once all writers have closed the pipe: 0 bytes on Linux, failure on Windows. -/
def endOfStream : Platform → OsRead
  | .linux => .data []
  | .windows => .failed

/-- A finite script of answers followed by the permanent end of the stream. -/
def scripted (platform : Platform) (script : List OsRead) (index : ℕ) : OsRead :=
  script.getD index (endOfStream platform)

/-- The loop stops after finitely many iterations, having injected exactly the chunks. -/
def EndsWithStream (platform : Platform) (buffer : Buffer) (script : List OsRead) : Prop :=
  ∃ iterations,
    (pipeReader platform buffer (scripted platform script) iterations).continueFlag = false ∧
      injectedChars (pipeReader platform buffer (scripted platform script) iterations).queue =
        script.flatMap OsRead.chunk

section Loop

variable (platform : Platform)

@[simp]
theorem ReadLoop.body_continueFlag (loop : ReadLoop) (answer : OsRead) :
    (loop.body platform answer).continueFlag = loop.continueFlag := by
  simp only [ReadLoop.body]
  split <;> rfl

theorem ReadLoop.body_queue_of_ok (loop : ReadLoop) {chunk : List Byte}
    (fits : chunk.length ≤ bufferSize)
    (ok : (GeneralPipe.read platform loop.buffer (.data chunk)).ok = true) :
    (loop.body platform (.data chunk)).queue =
      loop.queue ++ injectInput (successfulCalls platform chunk) := by
  have text := GeneralPipe.read_data_stdString platform loop.buffer fits
  rw [ReadLoop.body, if_pos ok, text]

theorem ReadLoop.body_queue_of_not_ok (loop : ReadLoop) {answer : OsRead}
    (notOk : ¬(GeneralPipe.read platform loop.buffer answer).ok = true) :
    (loop.body platform answer).queue = loop.queue := by
  rw [ReadLoop.body, if_neg notOk]

theorem injectedChars_successfulCalls (str : List Byte) :
    injectedChars (injectInput (ReadLoop.successfulCalls platform str)) = str := by
  have possible : ∀ call ∈ ReadLoop.successfulCalls platform str, call.2.Possible platform := by
    intro call call_mem
    rcases List.mem_map.mp call_mem with ⟨character, _, rfl⟩
    exact InjectReturn.possible_success platform
  rw [injectedChars_injectInput possible, Delivery.received_eq_of_forall]
  · rw [ReadLoop.successfulCalls, List.map_map]
    exact List.map_id str
  · intro call call_mem
    rcases List.mem_map.mp call_mem with ⟨character, _, rfl⟩
    exact InjectReturn.delivers_of_complete (InjectReturn.complete_success platform)

theorem ReadLoop.injectedChars_body (loop : ReadLoop) {answer : OsRead} (fits : answer.Fits) :
    injectedChars (loop.body platform answer).queue =
      injectedChars loop.queue ++ answer.chunk := by
  cases answer with
  | failed =>
      rw [loop.body_queue_of_not_ok platform (by simp), OsRead.chunk, List.append_nil]
  | data chunk =>
      have chunkFits : chunk.length ≤ bufferSize := fits
      by_cases ok : (GeneralPipe.read platform loop.buffer (.data chunk)).ok = true
      · rw [loop.body_queue_of_ok platform chunkFits ok, injectedChars_append,
          injectedChars_successfulCalls, OsRead.chunk]
      · have empty : chunk = [] := by
          rw [GeneralPipe.read_data_ok platform loop.buffer chunkFits, not_or, not_not] at ok
          exact ok.2
        rw [loop.body_queue_of_not_ok platform ok, empty, OsRead.chunk, List.append_nil]

variable (buffer : Buffer) (reads : ℕ → OsRead)

/-- `Continue` is true before every iteration: the loop never stops. -/
theorem pipeReader_continueFlag (iterations : ℕ) :
    (pipeReader platform buffer reads iterations).continueFlag = true := by
  induction iterations with
  | zero => rfl
  | succ iterations ih =>
      simp only [pipeReader]
      rw [if_pos ih, ReadLoop.body_continueFlag, ih]

/-- After every iteration the chunks read so far have been injected, in order. -/
theorem injectedChars_pipeReader (fits : ∀ index, (reads index).Fits) (iterations : ℕ) :
    injectedChars (pipeReader platform buffer reads iterations).queue =
      (List.range iterations).flatMap fun index => (reads index).chunk := by
  induction iterations with
  | zero => rfl
  | succ iterations ih =>
      simp only [pipeReader]
      rw [if_pos (pipeReader_continueFlag platform buffer reads iterations),
        ReadLoop.injectedChars_body platform _ (fits iterations), ih, List.range_succ,
        List.flatMap_append, List.flatMap_cons, List.flatMap_nil, List.append_nil]

end Loop

theorem endOfStream_chunk (platform : Platform) : (endOfStream platform).chunk = [] := by
  cases platform <;> rfl

theorem flatMap_scripted (platform : Platform) (script : List OsRead) {iterations : ℕ}
    (through : script.length ≤ iterations) :
    ((List.range iterations).flatMap fun index => (scripted platform script index).chunk) =
      script.flatMap OsRead.chunk := by
  induction script generalizing iterations with
  | nil => simp [scripted, endOfStream_chunk]
  | cons answer script ih =>
      rcases iterations with _ | iterations
      · simp at through
      · simp only [List.length_cons, Nat.add_le_add_iff_right] at through
        rw [List.range_succ_eq_map, List.flatMap_cons, List.flatMap_map, List.flatMap_cons,
          ← ih through]
        rfl

/--
Failed reads and empty reads lose nothing: once the loop has worked through the script,
exactly the chunks of the script have been injected, and the loop goes on.
-/
theorem pipeReader_scripted (platform : Platform) (buffer : Buffer) {script : List OsRead}
    (fits : ∀ answer ∈ script, answer.Fits) {iterations : ℕ}
    (through : script.length ≤ iterations) :
    (pipeReader platform buffer (scripted platform script) iterations).continueFlag = true ∧
      injectedChars (pipeReader platform buffer (scripted platform script) iterations).queue =
        script.flatMap OsRead.chunk := by
  have allFit : ∀ index, (scripted platform script index).Fits := by
    intro index
    by_cases inside : index < script.length
    · have entry : scripted platform script index = script[index] := by
        simp [scripted, inside]
      rw [entry]
      exact fits _ (List.getElem_mem inside)
    · have past : scripted platform script index = endOfStream platform := by
        simp [scripted, not_lt.mp inside]
      rw [past, OsRead.Fits, endOfStream_chunk]
      exact Nat.zero_le _
  refine ⟨pipeReader_continueFlag platform buffer _ iterations, ?_⟩
  rw [injectedChars_pipeReader platform buffer _ allFit,
    flatMap_scripted platform script through]

/-- On Linux: a chunk, an interrupted read, and another chunk. -/
def interruptedScript : List OsRead :=
  [.data [0x6c#8, 0x73#8, 0x0a#8], .failed, .data [0x71#8]]

theorem pipeReader_scripted_interrupted :
    (pipeReader .linux Buffer.zero (scripted .linux interruptedScript) 5).continueFlag = true ∧
      injectedChars (pipeReader .linux Buffer.zero (scripted .linux interruptedScript) 5).queue =
        interruptedScript.flatMap OsRead.chunk := by
  apply pipeReader_scripted
  · simp [interruptedScript, OsRead.Fits, OsRead.chunk, bufferSize]
  · decide

/-- The loop never ends with the stream, whatever the script was. -/
theorem not_endsWithStream (platform : Platform) (buffer : Buffer) (script : List OsRead) :
    ¬EndsWithStream platform buffer script := by
  rintro ⟨iterations, stopped, _⟩
  rw [pipeReader_continueFlag] at stopped
  simp at stopped

/-- On Linux: one chunk, an interrupted read, and the end of the stream. -/
theorem not_endsWithStream_interrupted :
    ¬EndsWithStream .linux Buffer.zero [.data [0x6c#8, 0x73#8, 0x0a#8], .failed] := by
  rintro ⟨iterations, stopped, _⟩
  have continues := pipeReader_continueFlag .linux Buffer.zero
    (scripted .linux [.data [0x6c#8, 0x73#8, 0x0a#8], .failed]) iterations
  rw [stopped] at continues
  simp at continues

/-! ## The loop and the steps of the thread -/

/-- The steps of the thread which make up one pass. -/
def iterationCalls (platform : Platform) (answer : OsRead) : List ReaderCall :=
  .test :: .read answer ::
    if platform = .linux ∧ answer.chunk = [] ∨ answer = .failed then []
    else answer.chunk.map (fun _ => .inject (InjectReturn.success platform)) ++ [.endInject]

/-- A step of the thread as one on the pair of channel and thread. -/
def readerStep (platform : Platform) (state : Channel × Reader) (call : ReaderCall) :
    Option (Channel × Reader) :=
  state.2.step platform state.1 call

theorem run_injectSteps (platform : Platform) (channel : Channel) (reader : Reader)
    (text : List Byte) (atInject : reader.pc = .inject text) :
    Transition.run (readerStep platform) (channel, reader)
        (text.map (fun _ => .inject (InjectReturn.success platform)) ++ [.endInject]) =
      some
        ({ channel with
            calls := channel.calls ++ ReadLoop.successfulCalls platform text
            queue := channel.queue ++ injectInput (ReadLoop.successfulCalls platform text) },
          { reader with pc := .test }) := by
  induction text generalizing channel reader with
  | nil => simp [readerStep, Reader.step, atInject, ReadLoop.successfulCalls, injectInput]
  | cons character text ih =>
      have first : readerStep platform (channel, reader)
          (.inject (InjectReturn.success platform)) =
          some (channel.inject character (InjectReturn.success platform),
            { reader with pc := .inject text }) := by
        simp [readerStep, Reader.step, atInject]
      rw [List.map_cons, List.cons_append, Transition.run_cons, first, Option.bind_some,
        ih _ _ rfl]
      simp [Channel.inject, ReadLoop.successfulCalls, injectInput, List.append_assoc]

/-- One iteration of the loop is a run of the thread from test to test. -/
theorem run_iterationCalls (platform : Platform) (channel : Channel) (loop : ReadLoop)
    (continues : loop.continueFlag = true) {answer : OsRead}
    (possible : answer.Possible channel.fifo) (queueEq : channel.queue = loop.queue) :
    ∃ channelNext reader,
      Transition.run (readerStep platform)
          (channel, ⟨loop.buffer, loop.readBytes, loop.continueFlag, .test⟩)
          (iterationCalls platform answer) = some (channelNext, reader) ∧
        channelNext.queue = (loop.body platform answer).queue ∧
        channelNext.fifo = channel.fifo.drop answer.chunk.length ∧
        reader = ⟨(loop.body platform answer).buffer, (loop.body platform answer).readBytes,
          true, .test⟩ := by
  have testStep : readerStep platform
      (channel, ⟨loop.buffer, loop.readBytes, loop.continueFlag, .test⟩) .test =
      some (channel, ⟨loop.buffer, loop.readBytes, true, .read⟩) := by
    simp [readerStep, Reader.step, continues]
  have readStep : readerStep platform (channel, ⟨loop.buffer, loop.readBytes, true, .read⟩)
      (.read answer) =
      some (channel.receive answer,
        ⟨(GeneralPipe.read platform loop.buffer answer).buffer,
          (GeneralPipe.read platform loop.buffer answer).readBytes, true,
          if (GeneralPipe.read platform loop.buffer answer).ok then
            .inject ((GeneralPipe.read platform loop.buffer answer).buffer.stdString
              (castInt (GeneralPipe.read platform loop.buffer answer).readBytes))
          else .test⟩) := by
    simp only [readerStep, Reader.step, if_pos possible]
  rw [iterationCalls, Transition.run_cons, testStep, Option.bind_some, Transition.run_cons,
    readStep, Option.bind_some]
  cases answer with
  | failed =>
      rw [if_neg (by simp), if_pos (Or.inr rfl)]
      refine ⟨channel, _, rfl, ?_, rfl, ?_⟩
      · rw [loop.body_queue_of_not_ok platform (by simp), queueEq]
      · simp [ReadLoop.body]
  | data chunk =>
      have text := GeneralPipe.read_data_stdString platform loop.buffer possible.1
      have reported := GeneralPipe.read_data_ok platform loop.buffer possible.1
      by_cases ok : (GeneralPipe.read platform loop.buffer (.data chunk)).ok = true
      · have injects : ¬(platform = .linux ∧ OsRead.chunk (.data chunk) = [] ∨
            OsRead.data chunk = .failed) := by
          rintro (⟨onLinux, empty⟩ | impossible)
          · rcases reported.mp ok with onWindows | nonempty
            · rw [onLinux] at onWindows
              simp at onWindows
            · exact nonempty empty
          · simp at impossible
        rw [if_pos ok, text, if_neg injects]
        refine ⟨_, _, run_injectSteps platform _ _ chunk rfl, ?_, rfl, ?_⟩
        · rw [loop.body_queue_of_ok platform possible.1 ok, ← queueEq]
          rfl
        · simp [ReadLoop.body, ok]
      · have skips : platform = .linux ∧ OsRead.chunk (.data chunk) = [] ∨
            OsRead.data chunk = .failed := by
          rw [reported, not_or, not_not] at ok
          refine Or.inl ⟨?_, ok.2⟩
          cases platform <;> simp_all
        rw [if_neg ok, if_pos skips]
        refine ⟨_, _, rfl, ?_, rfl, ?_⟩
        · rw [loop.body_queue_of_not_ok platform ok, ← queueEq]
          rfl
        · simp [ReadLoop.body, ok]

end MiddleMan
