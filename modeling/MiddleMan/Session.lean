import MiddleMan.Progress
import MiddleMan.TestProgram

/-!
# A session: sender, relay and user

What the writers wrote and what the user typed can be read off the events of a run.  With
the command loop of the test program as the only writer, the relay's guarantees become
statements about the lines which the sender was given: while they last, the terminal gets
a prefix of them with their line ends, and nothing keeps it from getting all of them.
-/

namespace MiddleMan

/-- The key an entry is, if the user pressed it. -/
def TermInput.typed? : TermInput → Option Byte
  | .typed pressed => some pressed
  | .pushed _ | .key _ => none

/-- The keys in the queue, in their order. -/
def typedKeys (queue : List TermInput) : List Byte :=
  queue.filterMap TermInput.typed?

/-- Injections type nothing on behalf of the user. -/
theorem typedKeys_injectChar (character : Byte) (answer : InjectReturn) :
    typedKeys (injectChar character answer) = [] := by
  cases answer with
  | ioctl result =>
      simp only [injectChar, injectInputLinux]
      split <;> rfl
  | console ok written =>
      simp only [injectChar, injectInputWindows, typedKeys, List.filterMap_map]
      exact List.filterMap_none _

theorem Reader.Step.written_and_typedKeys {platform : Platform} {channel channelNext : Channel}
    {reader next : Reader} {call : ReaderCall}
    (step : Reader.Step platform channel reader call channelNext next) :
    channelNext.written = channel.written ∧
      typedKeys channelNext.queue = typedKeys channel.queue := by
  cases step with
  | test atTest => exact ⟨rfl, rfl⟩
  | report chunk buffer readBytes atRead possible => exact ⟨rfl, rfl⟩
  | ignore answer buffer readBytes atRead empty => exact ⟨rfl, rfl⟩
  | inject character text answer atInject possible =>
      refine ⟨rfl, ?_⟩
      have nothing := typedKeys_injectChar character answer
      rw [typedKeys] at nothing
      rw [typedKeys, Channel.inject, List.filterMap_append, nothing, List.append_nil, typedKeys]
  | endInject atEnd => exact ⟨rfl, rfl⟩

namespace System

/-- What the event writes into the pipe. -/
def Event.bytes : Event → List Byte
  | .write bytes => bytes
  | _ => []

/-- The key which the event is. -/
def Event.key? : Event → Option Byte
  | .keystroke key => some key
  | _ => none

variable {platform : Platform} {system next : System}

theorem Step.written_and_typedKeys {event : Event} (step : Step platform system event next) :
    next.channel.written = system.channel.written ++ event.bytes ∧
      typedKeys next.channel.queue =
        typedKeys system.channel.queue ++ event.key?.toList := by
  cases step with
  | write bytes => exact ⟨rfl, (List.append_nil _).symm⟩
  | keystroke key =>
      refine ⟨(List.append_nil _).symm, ?_⟩
      rw [Channel.type, typedKeys, List.filterMap_append]
      rfl
  | reader who call process reader readerNext channel present running hasReader readerStep =>
      have kept := (Reader.step_sound readerStep).written_and_typedKeys
      cases who with
      | host => simpa [setProcess, Event.bytes, Event.key?] using kept
      | forked => simpa [setProcess, Event.bytes, Event.key?] using kept
  | hostMain call process mainStep => simp [Event.bytes, Event.key?]
  | forkedMain call process processNext present mainStep => simp [Event.bytes, Event.key?]
  | programExit running => simp [Event.bytes, Event.key?]
  | childExit pid other => simp [Event.bytes, Event.key?]
  | childReaped pid onLinux exited => simp [Event.bytes, Event.key?]

/--
In every run the stream is what the writers wrote, and the keys of the user arrive in the
terminal complete and in order, whatever the relay does and whichever calls fail.
-/
theorem written_and_typedKeys_of_run {base : HandleTable} {others : List Child}
    {events : List Event} {final : System}
    (runs : Transition.run (step platform) (entering base others) events = some final) :
    final.channel.written = events.flatMap Event.bytes ∧
      typedKeys final.channel.queue = events.filterMap Event.key? := by
  refine Transition.history_invariant (fun events system =>
    system.channel.written = events.flatMap Event.bytes ∧
      typedKeys system.channel.queue = events.filterMap Event.key?) ⟨rfl, rfl⟩ ?_ runs
  rintro history system event next ⟨writtenEq, typedEq⟩ stepEq
  have extended := (step_sound stepEq).written_and_typedKeys
  constructor
  · rw [extended.1, writtenEq, List.flatMap_append, List.flatMap_cons, List.flatMap_nil,
      List.append_nil]
  · rw [extended.2, typedEq, List.filterMap_append]
    cases keyEq : event.key? <;> simp [keyEq]

/-! ## The test program as the only writer -/

/-- What was written in the run is what the test program sends in some iterations. -/
def SentBy (platform : Platform) (input : List Byte) (iterations : ℕ) (events : List Event) :
    Prop :=
  events.flatMap Event.bytes =
    greeting platform ++ (commandLoop platform input iterations).written

/-- It is the beginning of that: some message may have been written in part only. -/
def BegunBy (platform : Platform) (input : List Byte) (iterations : ℕ) (events : List Event) :
    Prop :=
  events.flatMap Event.bytes <+:
    greeting platform ++ (commandLoop platform input iterations).written

/-- From sender to terminal: what was injected is a prefix of what was to be sent. -/
theorem injectedChars_prefix_of_begunBy {others : List Child} {events : List Event}
    {final : System}
    (runs : Transition.run (step platform) (initial others) events = some final)
    (launched : ∀ event ∈ events, ¬event.LaunchFault)
    (succeeds : ∀ event ∈ events, event.InjectionSucceeds) {input : List Byte} {iterations : ℕ}
    (begun : BegunBy platform input iterations events) :
    injectedChars final.channel.queue <+:
      greeting platform ++ (commandLoop platform input iterations).written := by
  rcases run_shows runs (no_execReturned_of_launched launched) with ⟨relay, relayRuns, shows⟩
  have isPrefix := Relay.injectedChars_prefix relayRuns (injectReturns_relayEvents succeeds)
  rw [shows.channel_eq, (written_and_typedKeys_of_run runs).1] at isPrefix
  exact isPrefix.trans begun

/--
While the input of the sender lasts, the terminal has got a prefix of the greeting and the
sender's lines with their line ends, also when only a part of them has been written.  Once
they are written and a reader runs, its steps alone can bring the terminal all of them.
-/
theorem lines_delivered {others : List Child} {events : List Event} {final : System}
    (runs : Transition.run (step platform) (initial others) events = some final)
    (launched : ∀ event ∈ events, ¬event.LaunchFault)
    (succeeds : ∀ event ∈ events, event.InjectionSucceeds) {input : List Byte} {iterations : ℕ}
    (begun : BegunBy platform input iterations events)
    (lasts : iterations ≤ (splitLines newline input).length) :
    injectedChars final.channel.queue <+:
        greeting platform ++
          withLineEnds platform ((splitLines newline input).take iterations) ∧
      (SentBy platform input iterations events → final.host.Running →
        final.host.reader ≠ none →
          ∃ calls caughtUp, Reader.CallsComplete calls ∧
            Transition.run (step platform) final (calls.map fun call => .reader .host call) =
                some caughtUp ∧
              injectedChars caughtUp.channel.queue =
                greeting platform ++
                  withLineEnds platform ((splitLines newline input).take iterations)) := by
  have sentLines := (commandLoop_through platform input lasts).1
  rw [← sentLines]
  refine ⟨injectedChars_prefix_of_begunBy runs launched succeeds begun, ?_⟩
  intro sent running present
  rcases Option.ne_none_iff_exists'.mp present with ⟨reader, hasReader⟩
  rcases exists_caughtUp runs launched succeeds running hasReader with
    ⟨calls, caughtUp, complete, callsRun, allInjected⟩
  refine ⟨calls, caughtUp, complete, callsRun, ?_⟩
  rw [allInjected, (written_and_typedKeys_of_run runs).1, sent]

/-- The user types two lines. -/
def twoLines : List Byte :=
  [0x6c#8, newline, 0x71#8, newline]

/-- On Linux: the two lines are written, and the relay has injected the first of them. -/
def twoLinesEvents : List Event :=
  [.main .host (.openPipe 3), .main .host .checkPipe, .main .host (.fork 100),
    .main .host .storePid, .main .host (.startThread (some Buffer.zero)),
    .main .forked (.execlp true), .write [0x6c#8, newline], .write [0x71#8, newline],
    .reader .host .test, .reader .host (.read (.data [0x6c#8, newline])),
    .reader .host (.inject (.ioctl 0)), .reader .host (.inject (.ioctl 0))]

theorem lines_delivered_twoLines :
    ∃ final, Transition.run (step .linux) (initial []) twoLinesEvents = some final ∧
      injectedChars final.channel.queue <+:
          greeting .linux ++ withLineEnds .linux ((splitLines newline twoLines).take 2) ∧
        ∃ calls caughtUp, Reader.CallsComplete calls ∧
          Transition.run (step .linux) final (calls.map fun call => .reader .host call) =
              some caughtUp ∧
            injectedChars caughtUp.channel.queue =
              greeting .linux ++ withLineEnds .linux ((splitLines newline twoLines).take 2) := by
  have sent : SentBy .linux twoLines 2 twoLinesEvents := by
    rw [SentBy]
    decide
  have delivered := @lines_delivered .linux [] twoLinesEvents _ rfl
    (by simp [twoLinesEvents, Event.LaunchFault])
    (by simp [twoLinesEvents, Event.InjectionSucceeds, InjectReturn.complete]) twoLines 2
    (by rw [BegunBy, sent]) (by decide)
  exact ⟨_, rfl, delivered.1, delivered.2 sent (by decide) (by decide)⟩

end System

end MiddleMan
