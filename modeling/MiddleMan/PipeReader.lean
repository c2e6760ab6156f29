import MiddleMan.GeneralPipe
import MiddleMan.InjectInput

/-!
# The reader thread

`Reader` is the state of the thread `pipeReader` which `StartMiddleMan` starts: the
variables of the lambda and a program counter.  Its steps are the test of
`while (Continue)`, a return of `Pipe.Read`, the injection of one character, and the end
of the `for` loop of `InjectInput`.

`Channel` is what the reader works on: the pipe and the terminal's input queue, with the
history needed to speak about what was lost.
-/

namespace MiddleMan

/-- The pipe, the terminal's input queue, and what happened to them so far. -/
structure Channel where
  written : List Byte
  fifo : List Byte
  /-- The bytes which reads took out of the pipe. -/
  taken : List Byte
  calls : List (Byte × InjectReturn)
  /-- Every entry of the terminal's input queue, in the order of arrival. -/
  queue : List TermInput
deriving DecidableEq, Repr

namespace Channel

/-- Nothing has happened, and the pipe is empty. -/
def initial : Channel :=
  { written := [], fifo := [], taken := [], calls := [], queue := [] }

/-- Bytes are written into the pipe. -/
def write (channel : Channel) (bytes : List Byte) : Channel :=
  { channel with written := channel.written ++ bytes, fifo := channel.fifo ++ bytes }

/-- The user presses a key. -/
def type (channel : Channel) (key : Byte) : Channel :=
  { channel with queue := channel.queue ++ [.typed key] }

/-- A read takes a chunk out of the pipe. -/
def take (channel : Channel) (chunk : List Byte) : Channel :=
  { channel with fifo := channel.fifo.drop chunk.length, taken := channel.taken ++ chunk }

/-- A call for one character, with its answer. -/
def inject (channel : Channel) (character : Byte) (answer : InjectReturn) : Channel :=
  { channel with
    calls := channel.calls ++ [(character, answer)]
    queue := channel.queue ++ injectChar character answer }

/-- What a read does to the pipe. -/
def receive (channel : Channel) : OsRead → Channel
  | .data chunk => channel.take chunk
  | .failed => channel

@[simp]
theorem take_nil (channel : Channel) : channel.take [] = channel := by
  simp [take]

end Channel

/-- A chunk is at most as long as the buffer and comes off the front of the pipe. -/
def OsRead.Possible (fifo : List Byte) : OsRead → Prop
  | .data chunk => chunk.length ≤ bufferSize ∧ chunk <+: fifo
  | .failed => True

instance (fifo : List Byte) (answer : OsRead) : Decidable (answer.Possible fifo) := by
  cases answer <;> unfold OsRead.Possible <;> infer_instance

/-- Where the thread is in the lambda. -/
inductive ReaderPc where
  | test
  | read
  /-- In `InjectInput`, with the characters still to be injected. -/
  | inject (text : List Byte)
  | finished
deriving DecidableEq, Repr

/-- The thread with the locals of the lambda. -/
structure Reader where
  buffer : Buffer
  readBytes : ℕ
  /-- `Continue` -/
  continueFlag : Bool
  pc : ReaderPc
deriving DecidableEq

/-- A step of the thread, with the answer of the operating system. -/
inductive ReaderCall where
  | test
  | read (answer : OsRead)
  | inject (answer : InjectReturn)
  | endInject
deriving DecidableEq, Repr

namespace Reader

/-- The thread at its start; the contents of `Buffer` are whatever the stack held. -/
def start (buffer : Buffer) : Reader :=
  { buffer := buffer, readBytes := 0, continueFlag := true, pc := .test }

/-- The characters of the current chunk which have not been injected yet. -/
def pending (reader : Reader) : List Byte :=
  match reader.pc with
  | .inject text => text
  | .test | .read | .finished => []

/-- One step of the thread, if the thread is there and the pipe lets it. -/
def step (platform : Platform) (channel : Channel) (reader : Reader) (call : ReaderCall) :
    Option (Channel × Reader) :=
  match reader.pc, call with
  | .test, .test =>
      some (channel, { reader with pc := if reader.continueFlag then .read else .finished })
  | .read, .read answer =>
      if answer.Possible channel.fifo then
        let result := GeneralPipe.read platform reader.buffer answer
        let text := result.buffer.stdString (castInt result.readBytes)
        some (channel.receive answer,
          { reader with
            buffer := result.buffer
            readBytes := result.readBytes
            pc := if result.ok then .inject text else .test })
      else none
  | .inject (character :: text), .inject answer =>
      if answer.Possible platform then
        some (channel.inject character answer, { reader with pc := .inject text })
      else none
  | .inject [], .endInject => some (channel, { reader with pc := .test })
  | _, _ => none

/-- The steps with the channel and the thread they lead to. -/
inductive Step (platform : Platform) (channel : Channel) (reader : Reader) :
    ReaderCall → Channel → Reader → Prop where
  | test (atTest : reader.pc = .test) :
      Step platform channel reader .test channel
        { reader with pc := if reader.continueFlag then .read else .finished }
  | report (chunk : List Byte) (buffer : Buffer) (readBytes : ℕ) (atRead : reader.pc = .read)
      (possible : (OsRead.data chunk).Possible channel.fifo) :
      Step platform channel reader (.read (.data chunk)) (channel.take chunk)
        { reader with buffer := buffer, readBytes := readBytes, pc := .inject chunk }
  | ignore (answer : OsRead) (buffer : Buffer) (readBytes : ℕ) (atRead : reader.pc = .read)
      (empty : answer = .failed ∨ answer = .data [] ∧ platform = .linux) :
      Step platform channel reader (.read answer) channel
        { reader with buffer := buffer, readBytes := readBytes, pc := .test }
  | inject (character : Byte) (text : List Byte) (answer : InjectReturn)
      (atInject : reader.pc = .inject (character :: text)) (possible : answer.Possible platform) :
      Step platform channel reader (.inject answer) (channel.inject character answer)
        { reader with pc := .inject text }
  | endInject (atEnd : reader.pc = .inject []) :
      Step platform channel reader .endInject channel { reader with pc := .test }

/--
A return of `Read` hands over exactly the chunk which left the pipe, or nothing left the
pipe.
-/
theorem step_read {platform : Platform} {channel channelNext : Channel} {reader next : Reader}
    {answer : OsRead} (atRead : reader.pc = .read)
    (stepEq : reader.step platform channel (.read answer) = some (channelNext, next)) :
    Step platform channel reader (.read answer) channelNext next := by
  simp only [step, atRead] at stepEq
  split at stepEq
  · rename_i possible
    simp only [Option.some.injEq, Prod.mk.injEq] at stepEq
    rcases stepEq with ⟨rfl, rfl⟩
    cases answer with
    | failed =>
        simp only [GeneralPipe.read_failed_ok, Bool.false_eq_true, if_false]
        exact .ignore .failed _ _ atRead (Or.inl rfl)
    | data chunk =>
        have text := GeneralPipe.read_data_stdString platform reader.buffer possible.1
        have reported := GeneralPipe.read_data_ok platform reader.buffer possible.1
        by_cases ok : (GeneralPipe.read platform reader.buffer (.data chunk)).ok = true
        · rw [if_pos ok, text]
          exact .report chunk _ _ atRead possible
        · rw [if_neg ok]
          rw [reported, not_or, not_not] at ok
          rcases ok with ⟨notWindows, rfl⟩
          -- only Linux reports a successful read of nothing as a failure
          have onLinux : platform = .linux := by
            cases platform <;> simp_all
          simp only [Channel.receive, Channel.take_nil]
          exact .ignore (.data []) _ _ atRead (Or.inr ⟨rfl, onLinux⟩)
  · simp at stepEq

theorem step_sound {platform : Platform} {channel channelNext : Channel} {reader next : Reader}
    {call : ReaderCall}
    (stepEq : reader.step platform channel call = some (channelNext, next)) :
    Step platform channel reader call channelNext next := by
  cases pcEq : reader.pc with
  | test =>
      cases call with
      | test =>
          simp only [step, pcEq, Option.some.injEq, Prod.mk.injEq] at stepEq
          rcases stepEq with ⟨rfl, rfl⟩
          exact .test pcEq
      | _ => simp [step, pcEq] at stepEq
  | read =>
      cases call with
      | read answer => exact step_read pcEq stepEq
      | _ => simp [step, pcEq] at stepEq
  | inject text =>
      cases text with
      | nil =>
          cases call with
          | endInject =>
              simp only [step, pcEq, Option.some.injEq, Prod.mk.injEq] at stepEq
              rcases stepEq with ⟨rfl, rfl⟩
              exact .endInject pcEq
          | _ => simp [step, pcEq] at stepEq
      | cons character text =>
          cases call with
          | inject answer =>
              simp only [step, pcEq] at stepEq
              split at stepEq
              · rename_i possible
                simp only [Option.some.injEq, Prod.mk.injEq] at stepEq
                rcases stepEq with ⟨rfl, rfl⟩
                exact .inject character text answer pcEq possible
              · simp at stepEq
          | _ => simp [step, pcEq] at stepEq
  | finished => simp [step, pcEq] at stepEq

/-- The thread is inside its loop and will stay there. -/
def Looping (reader : Reader) : Prop :=
  reader.continueFlag = true ∧ reader.pc ≠ .finished

theorem looping_start (buffer : Buffer) : (start buffer).Looping :=
  ⟨rfl, by simp [start]⟩

/-- No step leaves the loop: nothing ever assigns `Continue`. -/
theorem Step.looping {platform : Platform} {channel channelNext : Channel}
    {reader next : Reader} {call : ReaderCall}
    (step : Step platform channel reader call channelNext next) (looping : reader.Looping) :
    next.Looping := by
  rcases looping with ⟨continues, _⟩
  cases step with
  | test atTest => exact ⟨continues, by simp [continues]⟩
  | report chunk buffer readBytes atRead possible => exact ⟨continues, by simp⟩
  | ignore answer buffer readBytes atRead empty => exact ⟨continues, by simp⟩
  | inject character text answer atInject possible => exact ⟨continues, by simp⟩
  | endInject atEnd => exact ⟨continues, by simp⟩

end Reader

namespace Channel

/-- The bookkeeping of a channel, whoever reads from it. -/
structure Consistent (platform : Platform) (channel : Channel) : Prop where
  written_eq : channel.taken ++ channel.fifo = channel.written
  possible : ∀ call ∈ channel.calls, call.2.Possible platform
  chars_eq : injectedChars channel.queue = injectedChars (injectInput channel.calls)
  records_eq : injectedRecords channel.queue = injectedRecords (injectInput channel.calls)

variable {platform : Platform} {channel : Channel}

theorem consistent_initial : Channel.initial.Consistent platform :=
  ⟨rfl, by simp [initial], rfl, rfl⟩

theorem Consistent.write (consistent : channel.Consistent platform) (bytes : List Byte) :
    (channel.write bytes).Consistent platform where
  written_eq := by
    rw [Channel.write, ← consistent.written_eq, List.append_assoc]
  possible := consistent.possible
  chars_eq := consistent.chars_eq
  records_eq := consistent.records_eq

theorem Consistent.type (consistent : channel.Consistent platform) (key : Byte) :
    (channel.type key).Consistent platform where
  written_eq := consistent.written_eq
  possible := consistent.possible
  chars_eq := by
    rw [Channel.type, injectedChars_append, consistent.chars_eq]
    exact List.append_nil _
  records_eq := by
    rw [Channel.type, injectedRecords_append, consistent.records_eq]
    exact List.append_nil _

theorem Consistent.take (consistent : channel.Consistent platform) {chunk : List Byte}
    (front : chunk <+: channel.fifo) : (channel.take chunk).Consistent platform where
  written_eq := by
    rcases front with ⟨rest, fifoEq⟩
    rw [Channel.take, ← consistent.written_eq, ← fifoEq]
    simp
  possible := consistent.possible
  chars_eq := consistent.chars_eq
  records_eq := consistent.records_eq

theorem Consistent.inject (consistent : channel.Consistent platform) (character : Byte)
    {answer : InjectReturn} (answerPossible : answer.Possible platform) :
    (channel.inject character answer).Consistent platform where
  written_eq := consistent.written_eq
  possible := by
    intro call call_mem
    rcases List.mem_append.mp call_mem with old_mem | new_mem
    · exact consistent.possible call old_mem
    · simp only [List.mem_singleton] at new_mem
      subst call
      exact answerPossible
  chars_eq := by
    simp only [Channel.inject, injectInput, List.flatMap_append, injectedChars_append,
      List.flatMap_cons, List.flatMap_nil, List.append_nil]
    rw [consistent.chars_eq, injectInput]
  records_eq := by
    simp only [Channel.inject, injectInput, List.flatMap_append, injectedRecords_append,
      List.flatMap_cons, List.flatMap_nil, List.append_nil]
    rw [consistent.records_eq, injectInput]

theorem Consistent.injectedChars_eq (consistent : channel.Consistent platform) :
    injectedChars channel.queue = Delivery.received InjectReturn.delivers channel.calls := by
  rw [consistent.chars_eq, injectedChars_injectInput consistent.possible]

end Channel

theorem Reader.Step.consistent {platform : Platform} {channel channelNext : Channel}
    {reader next : Reader} {call : ReaderCall}
    (step : Reader.Step platform channel reader call channelNext next)
    (consistent : channel.Consistent platform) : channelNext.Consistent platform := by
  cases step with
  | test atTest => exact consistent
  | report chunk buffer readBytes atRead possible => exact consistent.take possible.2
  | ignore answer buffer readBytes atRead empty => exact consistent
  | inject character text answer atInject possible => exact consistent.inject character possible
  | endInject atEnd => exact consistent

/-- What was taken from the pipe was injected, or is the rest of the chunk in hand. -/
def Channel.Accounted (channel : Channel) (inHand : List Byte) : Prop :=
  channel.taken = channel.calls.map Prod.fst ++ inHand

/-- A step of the only reader keeps every byte accounted for. -/
theorem Reader.Step.accounted {platform : Platform} {channel channelNext : Channel}
    {reader next : Reader} {call : ReaderCall}
    (step : Reader.Step platform channel reader call channelNext next)
    (accounted : channel.Accounted reader.pending) : channelNext.Accounted next.pending := by
  cases step with
  | test atTest =>
      have nothing : reader.pending = [] := by simp [Reader.pending, atTest]
      rw [nothing] at accounted
      cases continues : reader.continueFlag <;> simpa [Reader.pending] using accounted
  | report chunk buffer readBytes atRead possible =>
      have nothing : reader.pending = [] := by simp [Reader.pending, atRead]
      rw [nothing, Channel.Accounted, List.append_nil] at accounted
      simp [Channel.Accounted, Channel.take, Reader.pending, accounted]
  | ignore answer buffer readBytes atRead empty =>
      have nothing : reader.pending = [] := by simp [Reader.pending, atRead]
      rw [nothing] at accounted
      exact accounted
  | inject character text answer atInject possible =>
      have inHand : reader.pending = character :: text := by simp [Reader.pending, atInject]
      rw [inHand, Channel.Accounted] at accounted
      simp [Channel.Accounted, Channel.inject, Reader.pending, accounted]
  | endInject atEnd =>
      have nothing : reader.pending = [] := by simp [Reader.pending, atEnd]
      rw [nothing] at accounted
      exact accounted

end MiddleMan
