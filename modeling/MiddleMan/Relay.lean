import MiddleMan.PipeReader
import MiddleMan.Library.Transition

/-!
# The relay: writers, reader thread and keyboard

The three parties which work on a `Channel` while `StartMiddleMan` runs: writers append
to the pipe, the user types, and the reader thread, once started, takes its steps.  Any
interleaving is a run of `Relay.step`.

The first section keeps the books of a run: which byte is where, and what the injection
calls returned.  The second settles when failing calls leave a hole in the stream.  The
last shows that a relay whose calls all succeed is a `Courier`.
-/

namespace MiddleMan

/-- The channel, and the reader thread once it runs. -/
structure Relay where
  channel : Channel
  reader : Option Reader
deriving DecidableEq

namespace Relay

/-- What the writer, the user or the thread does. -/
inductive Event where
  | write (bytes : List Byte)
  | keystroke (key : Byte)
  /-- The reader thread starts; the argument is the initial contents of its buffer. -/
  | start (buffer : Buffer)
  | reader (call : ReaderCall)
deriving DecidableEq

/-- The answer of an injection call. -/
def Event.injectReturn? : Event → Option InjectReturn
  | .reader (.inject answer) => some answer
  | .write _ | .keystroke _ | .start _ | .reader .test | .reader (.read _) |
    .reader .endInject => none

/-- The environment's answers to the injection calls of a run, in order. -/
def injectReturns (events : List Event) : List InjectReturn :=
  events.filterMap Event.injectReturn?

theorem injectReturns_concat (events : List Event) (event : Event) :
    injectReturns (events ++ [event]) =
      injectReturns events ++ event.injectReturn?.toList := by
  rw [injectReturns, List.filterMap_append, ← injectReturns]
  cases answerEq : event.injectReturn? <;> simp [answerEq]

/-- Before the thread starts. -/
def initial : Relay :=
  { channel := Channel.initial, reader := none }

/-- One event, if it can happen in this state. -/
def step (platform : Platform) (relay : Relay) : Event → Option Relay
  | .write bytes => some { relay with channel := relay.channel.write bytes }
  | .keystroke key => some { relay with channel := relay.channel.type key }
  | .start buffer =>
      match relay.reader with
      | none => some { relay with reader := some (Reader.start buffer) }
      | some _ => none
  | .reader call =>
      match relay.reader with
      | none => none
      | some reader =>
          (reader.step platform relay.channel call).map fun (channel, next) =>
            { channel := channel, reader := some next }

/-- What the thread has in hand. -/
def pending (relay : Relay) : List Byte :=
  match relay.reader with
  | none => []
  | some reader => reader.pending

/-- The steps with the relay they lead to. -/
inductive Step (platform : Platform) (relay : Relay) : Event → Relay → Prop where
  | write (bytes : List Byte) :
      Step platform relay (.write bytes) { relay with channel := relay.channel.write bytes }
  | keystroke (key : Byte) :
      Step platform relay (.keystroke key) { relay with channel := relay.channel.type key }
  | start (buffer : Buffer) (absent : relay.reader = none) :
      Step platform relay (.start buffer) { relay with reader := some (Reader.start buffer) }
  | reader (call : ReaderCall) (reader next : Reader) (channel : Channel)
      (present : relay.reader = some reader)
      (readerStep : Reader.Step platform relay.channel reader call channel next) :
      Step platform relay (.reader call) { channel := channel, reader := some next }

theorem step_sound {platform : Platform} {relay next : Relay} {event : Event}
    (stepEq : relay.step platform event = some next) : Step platform relay event next := by
  cases event with
  | write bytes =>
      simp only [step, Option.some.injEq] at stepEq
      subst next
      exact .write bytes
  | keystroke key =>
      simp only [step, Option.some.injEq] at stepEq
      subst next
      exact .keystroke key
  | start buffer =>
      cases readerEq : relay.reader with
      | none =>
          simp only [step, readerEq, Option.some.injEq] at stepEq
          subst next
          exact .start buffer readerEq
      | some reader => simp [step, readerEq] at stepEq
  | reader call =>
      cases readerEq : relay.reader with
      | none => simp [step, readerEq] at stepEq
      | some reader =>
          simp only [step, readerEq, Option.map_eq_some_iff] at stepEq
          rcases stepEq with ⟨⟨channel, readerNext⟩, readerStep, rfl⟩
          exact .reader call reader readerNext channel readerEq (Reader.step_sound readerStep)

/-! ## The books of a run -/

/-- Every byte written is accounted for, and the calls logged are those of the run. -/
structure Books (platform : Platform) (history : List Event) (relay : Relay) : Prop where
  consistent : relay.channel.Consistent platform
  accounted : relay.channel.Accounted relay.pending
  returns_eq : relay.channel.calls.map Prod.snd = injectReturns history

theorem books_initial (platform : Platform) : Books platform [] initial where
  consistent := Channel.consistent_initial
  accounted := rfl
  returns_eq := rfl

theorem Step.books {platform : Platform} {history : List Event} {relay next : Relay}
    {event : Event} (step : Step platform relay event next)
    (books : Books platform history relay) : Books platform (history ++ [event]) next := by
  have returns := books.returns_eq
  cases step with
  | write bytes =>
      refine ⟨books.consistent.write bytes, books.accounted, ?_⟩
      simpa [injectReturns_concat, Event.injectReturn?, Channel.write] using returns
  | keystroke key =>
      refine ⟨books.consistent.type key, books.accounted, ?_⟩
      simpa [injectReturns_concat, Event.injectReturn?, Channel.type] using returns
  | start buffer absent =>
      have accounted := books.accounted
      simp only [pending, absent] at accounted
      refine ⟨books.consistent, accounted, ?_⟩
      simpa [injectReturns_concat, Event.injectReturn?] using returns
  | reader call reader readerNext channel present readerStep =>
      have accounted := books.accounted
      simp only [pending, present] at accounted
      refine ⟨readerStep.consistent books.consistent, readerStep.accounted accounted, ?_⟩
      rw [injectReturns_concat, ← returns]
      cases readerStep with
      | inject character text answer atInject possible =>
          simp [Event.injectReturn?, Channel.inject]
      | report chunk buffer readBytes atRead possible =>
          simp [Event.injectReturn?, Channel.take]
      | test atTest => simp [Event.injectReturn?]
      | ignore answer buffer readBytes atRead empty => simp [Event.injectReturn?]
      | endInject atEnd => simp [Event.injectReturn?]

theorem books_of_run {platform : Platform} {events : List Event} {final : Relay}
    (runs : Transition.run (step platform) initial events = some final) :
    Books platform events final :=
  Transition.history_invariant (Books platform) (books_initial platform)
    (fun _ _ _ _ books stepEq => (step_sound stepEq).books books) runs

namespace Books

variable {platform : Platform} {history : List Event} {relay : Relay}

/-- The characters handed to injection calls, the rest of the chunk and the pipe make up the
stream. -/
theorem stream_eq (books : Books platform history relay) :
    relay.channel.calls.map Prod.fst ++ relay.pending ++ relay.channel.fifo =
      relay.channel.written := by
  rw [← books.accounted, books.consistent.written_eq]

/-- When every call of the run delivers, no byte of the stream is missing anywhere. -/
theorem conservation (books : Books platform history relay)
    (delivered : ∀ answer ∈ injectReturns history, answer.delivers = true) :
    injectedChars relay.channel.queue ++ relay.pending ++ relay.channel.fifo =
      relay.channel.written := by
  rw [books.consistent.injectedChars_eq, Delivery.received_eq_of_forall, books.stream_eq]
  intro call call_mem
  apply delivered
  rw [← books.returns_eq]
  exact List.mem_map_of_mem call_mem

end Books

/-! ## Failing injection calls -/

/--
The characters which reached the terminal are a prefix of the stream, no character was
skipped in favour of a later one, and no key was left pressed before the next record.
-/
structure NoHole (relay : Relay) : Prop where
  received_prefix : injectedChars relay.channel.queue <+: relay.channel.written
  noneSkipped : Delivery.NoneSkipped InjectReturn.delivers relay.channel.calls
  keysReleased : KeysReleased (injectedRecords relay.channel.queue)

theorem Books.noHole_iff {platform : Platform} {history : List Event} {relay : Relay}
    (books : Books platform history relay) :
    relay.NoHole ↔ StopsAtFailure (injectReturns history) := by
  have calls := noneSkipped_and_keysReleased_iff books.consistent.possible
  rw [← books.consistent.records_eq, books.returns_eq] at calls
  rw [← calls]
  constructor
  · intro noHole
    exact ⟨noHole.noneSkipped, noHole.keysReleased⟩
  · rintro ⟨noneSkipped, keysReleased⟩
    refine ⟨?_, noneSkipped, keysReleased⟩
    rw [books.consistent.injectedChars_eq, ← books.stream_eq, List.append_assoc]
    exact (Delivery.received_prefix noneSkipped).trans (List.prefix_append _ _)

/--
A run leaves no hole in the stream exactly when, among the answers of its injection
calls, nothing is delivered after a call which was not complete.
-/
theorem noHole_iff_stopsAtFailure {platform : Platform} {events : List Event} {final : Relay}
    (runs : Transition.run (step platform) initial events = some final) :
    final.NoHole ↔ StopsAtFailure (injectReturns events) :=
  (books_of_run runs).noHole_iff

/-- On Linux, `ls` is written; the call for the first character fails, the next succeeds. -/
def skippingEvents : List Event :=
  [.write [0x6c#8, 0x73#8], .start Buffer.zero, .reader .test,
    .reader (.read (.data [0x6c#8, 0x73#8])), .reader (.inject (.ioctl (-1))),
    .reader (.inject (.ioctl 0))]

theorem noHole_iff_stopsAtFailure_skipping :
    ∃ final, Transition.run (step .linux) initial skippingEvents = some final ∧
      (final.NoHole ↔ StopsAtFailure (injectReturns skippingEvents)) :=
  ⟨_, rfl, @noHole_iff_stopsAtFailure .linux skippingEvents _ rfl⟩

/-- The terminal got an `s` where the stream has `ls`. -/
theorem hole_after_failed_ioctl :
    ∃ final, Transition.run (step .linux) initial skippingEvents = some final ∧
      injectedChars final.channel.queue = [0x73#8] ∧ final.channel.written = [0x6c#8, 0x73#8] ∧
        ¬final.NoHole := by
  refine ⟨_, rfl, by decide, by decide, ?_⟩
  intro noHole
  exact absurd noHole.received_prefix (by decide)

/-! ## Refinement of the courier -/

/-- What an event of the relay is for the courier. -/
def Event.courierEvents : Event → List (Courier.Event Byte)
  | .write bytes => [.send bytes]
  | .reader (.inject _) => [.deliver]
  | .keystroke _ | .start _ | .reader .test | .reader (.read _) | .reader .endInject => []

/-- The courier was given what the writers wrote and delivered what injection was tried for. -/
structure Refines (platform : Platform) (relay : Relay) (courier : Courier Byte) : Prop where
  consistent : relay.channel.Consistent platform
  accounted : relay.channel.Accounted relay.pending
  sent_eq : courier.sent = relay.channel.written
  output_eq : courier.output = relay.channel.calls.map Prod.fst

theorem Step.refines {platform : Platform} {relay next : Relay} {event : Event}
    (step : Step platform relay event next) {courier : Courier Byte}
    (refines : Refines platform relay courier) :
    ∃ courierNext,
      Transition.run Courier.step courier event.courierEvents = some courierNext ∧
        Refines platform next courierNext := by
  cases step with
  | write bytes =>
      rcases courier.step_send bytes with ⟨courierNext, stepEq, sentEq, outputEq⟩
      refine ⟨courierNext, by simp [Event.courierEvents, stepEq], ?_⟩
      refine ⟨refines.consistent.write bytes, refines.accounted, ?_, ?_⟩
      · rw [sentEq, refines.sent_eq, Channel.write]
      · rw [outputEq, refines.output_eq, Channel.write]
  | keystroke key =>
      exact ⟨courier, rfl, refines.consistent.type key, refines.accounted, refines.sent_eq,
        refines.output_eq⟩
  | start buffer absent =>
      have accounted := refines.accounted
      simp only [pending, absent] at accounted
      exact ⟨courier, rfl, refines.consistent, accounted, refines.sent_eq, refines.output_eq⟩
  | reader call reader readerNext channel present readerStep =>
      have accounted := refines.accounted
      simp only [pending, present] at accounted
      have nextConsistent := readerStep.consistent refines.consistent
      have nextAccounted := readerStep.accounted accounted
      cases readerStep with
      | test atTest =>
          exact ⟨courier, rfl, nextConsistent, nextAccounted, refines.sent_eq, refines.output_eq⟩
      | report chunk buffer readBytes atRead possible =>
          exact ⟨courier, rfl, nextConsistent, nextAccounted, refines.sent_eq, refines.output_eq⟩
      | ignore answer buffer readBytes atRead empty =>
          exact ⟨courier, rfl, nextConsistent, nextAccounted, refines.sent_eq, refines.output_eq⟩
      | endInject atEnd =>
          exact ⟨courier, rfl, nextConsistent, nextAccounted, refines.sent_eq, refines.output_eq⟩
      | inject character text answer atInject possible =>
          have inHand : reader.pending = character :: text := by simp [Reader.pending, atInject]
          have continues :
              courier.sent = courier.output ++ character :: (text ++ relay.channel.fifo) := by
            rw [refines.sent_eq, refines.output_eq, ← refines.consistent.written_eq, accounted,
              inHand, List.append_assoc, List.cons_append]
          rcases Courier.step_deliver continues with ⟨courierNext, stepEq, sentEq, outputEq⟩
          refine ⟨courierNext, by simp [Event.courierEvents, stepEq], nextConsistent,
            nextAccounted, ?_, ?_⟩
          · rw [sentEq, refines.sent_eq, Channel.inject]
          · rw [outputEq, refines.output_eq, Channel.inject, List.map_append]
            rfl

/--
A relay none of whose injection calls fails delivers like a courier: there is a courier
which was given what was written and handed over exactly what reached the terminal.
-/
theorem refines_courier {platform : Platform} {events : List Event} {final : Relay}
    (runs : Transition.run (step platform) initial events = some final)
    (delivered : ∀ answer ∈ injectReturns events, answer.delivers = true) :
    ∃ courier,
      Transition.run Courier.step Courier.initial (events.flatMap Event.courierEvents) =
          some courier ∧
        courier.sent = final.channel.written ∧
          courier.output = injectedChars final.channel.queue := by
  have start : Refines platform initial Courier.initial :=
    ⟨Channel.consistent_initial, rfl, rfl, rfl⟩
  have simulates : ∀ relay courier event next, Refines platform relay courier → True →
      relay.step platform event = some next →
        ∃ courierNext,
          Transition.run Courier.step courier event.courierEvents = some courierNext ∧
            Refines platform next courierNext := by
    intro relay courier event next refines _ stepEq
    exact (step_sound stepEq).refines refines
  rcases Transition.run_simulates (fun _ => True) simulates start runs (by simp) with
    ⟨courier, courierRuns, refines⟩
  refine ⟨courier, courierRuns, refines.sent_eq, ?_⟩
  have books := books_of_run runs
  rw [refines.output_eq, books.consistent.injectedChars_eq, Delivery.received_eq_of_forall]
  intro call call_mem
  apply delivered
  rw [← books.returns_eq]
  exact List.mem_map_of_mem call_mem

/-- So the terminal has got a prefix of the stream. -/
theorem injectedChars_prefix {platform : Platform} {events : List Event} {final : Relay}
    (runs : Transition.run (step platform) initial events = some final)
    (delivered : ∀ answer ∈ injectReturns events, answer.delivers = true) :
    injectedChars final.channel.queue <+: final.channel.written := by
  rcases refines_courier runs delivered with ⟨courier, _, sentEq, outputEq⟩
  rw [← sentEq, ← outputEq]
  exact courier.output_prefix

end Relay

end MiddleMan
