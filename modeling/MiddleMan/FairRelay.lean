import MiddleMan.Library.Execution
import MiddleMan.Progress
import MiddleMan.Session

/-!
# A fair relay delivers

`Progress` says that the relay can catch up.  Here it has to: in an execution which goes on
for ever, and which does not keep the reader thread waiting where it could get on, every
byte written arrives in the terminal.  What the thread still has to do until then is a
measure which each of its steps uses up and which nobody else increases.
-/

namespace MiddleMan

/-- The thread gets on by this step: a read returns something, an injection delivers. -/
def ReaderCall.GetsOn : ReaderCall → Prop
  | .test | .endInject => True
  | .read answer => answer.chunk ≠ []
  | .inject answer => answer.delivers = true

namespace Reader

/--
An upper bound for the steps until `missing` more characters are in the terminal.  The thread
may get one character at a time, and then it takes four steps for each of them.
-/
def owed (missing : ℕ) (reader : Reader) : ℕ :=
  match reader.pc with
  | .test => 4 * missing
  | .read => 4 * missing - 1
  | .inject text =>
      if missing ≤ text.length then missing else 4 * (missing - text.length) + text.length + 1
  | .finished => 0

variable {platform : Platform} {channel channelNext : Channel} {reader next : Reader}
  {call : ReaderCall}

theorem Step.owed_lt (step : Step platform channel reader call channelNext next)
    (looping : reader.Looping) (getsOn : call.GetsOn) {count : ℕ}
    (missing : (injectedChars channel.queue).length < count) :
    next.owed (count - (injectedChars channelNext.queue).length) <
      reader.owed (count - (injectedChars channel.queue).length) := by
  cases step with
  | test atTest =>
      simp only [owed, atTest, looping.1, if_true]
      omega
  | report chunk buffer readBytes atRead possible =>
      have nonempty : 0 < chunk.length := List.length_pos_of_ne_nil getsOn
      have unchanged : (channel.take chunk).queue = channel.queue := rfl
      rw [unchanged]
      simp only [owed, atRead]
      split_ifs <;> omega
  | ignore answer buffer readBytes atRead empty =>
      exfalso
      apply getsOn
      rcases empty with rfl | ⟨rfl, _⟩ <;> rfl
  | inject character text answer atInject possible =>
      have arrived : (injectedChars (channel.inject character answer).queue).length =
          (injectedChars channel.queue).length + 1 := by
        have delivers : answer.delivers = true := getsOn
        simp [Channel.inject, injectedChars_append, injectedChars_injectChar possible, delivers]
      simp only [owed, atInject, arrived, List.length_cons]
      split_ifs <;> omega
  | endInject atEnd =>
      simp only [owed, atEnd, List.length_nil]
      split_ifs <;> omega

/-- Only a read from an empty pipe can keep the thread from getting on. -/
theorem exists_getsOn (looping : reader.Looping)
    (nonempty : reader.pc = .read → channel.fifo ≠ []) :
    ∃ call, call.GetsOn ∧ (reader.step platform channel call).isSome = true := by
  cases pcEq : reader.pc with
  | test =>
      refine ⟨.test, trivial, ?_⟩
      simp [step, pcEq]
  | read =>
      have taken : channel.fifo.take bufferSize ≠ [] := by
        simp [bufferSize, nonempty pcEq]
      refine ⟨.read (.data (channel.fifo.take bufferSize)), taken, ?_⟩
      have possible : (OsRead.data (channel.fifo.take bufferSize)).Possible channel.fifo :=
        ⟨List.length_take_le _ _, List.take_prefix _ _⟩
      simp [step, pcEq, possible]
  | inject text =>
      cases text with
      | nil =>
          refine ⟨.endInject, trivial, ?_⟩
          simp [step, pcEq]
      | cons character text =>
          refine ⟨.inject (.success platform), ?_, ?_⟩
          · exact InjectReturn.delivers_of_complete (InjectReturn.complete_success platform)
          · simp [step, pcEq, InjectReturn.possible_success]
  | finished => exact absurd pcEq looping.2

end Reader

namespace Relay

/-- A step of the reader thread by which it gets on. -/
def Event.GetsOn : Event → Prop
  | .reader call => call.GetsOn
  | .write _ | .keystroke _ | .start _ => False

/-- The relay's reader thread is there, and in its loop. -/
def Working (relay : Relay) : Prop :=
  ∃ reader, relay.reader = some reader ∧ reader.Looping

/-- An upper bound for the steps of the reader thread until `count` bytes have arrived. -/
def owed (count : ℕ) (relay : Relay) : ℕ :=
  match relay.reader with
  | none => 0
  | some reader => reader.owed (count - (injectedChars relay.channel.queue).length)

variable {platform : Platform} {relay next : Relay} {event : Event}

theorem Step.working (step : Step platform relay event next) (working : relay.Working) :
    next.Working := by
  rcases working with ⟨reader, present, looping⟩
  cases step with
  | write bytes => exact ⟨reader, present, looping⟩
  | keystroke key => exact ⟨reader, present, looping⟩
  | start buffer absent => simp [present] at absent
  | reader call same readerNext channel samePresent readerStep =>
      have readerEq : reader = same := Option.some.inj (present.symm.trans samePresent)
      subst readerEq
      exact ⟨readerNext, rfl, readerStep.looping looping⟩

theorem Step.written_isPrefix (step : Step platform relay event next) :
    relay.channel.written <+: next.channel.written := by
  cases step with
  | write bytes => exact List.prefix_append _ _
  | keystroke key => exact List.prefix_rfl
  | start buffer absent => exact List.prefix_rfl
  | reader call reader readerNext channel present readerStep =>
      rw [readerStep.written_and_typedKeys.1]

/-- Only the thread itself changes what it still has to do. -/
theorem Step.owed_le (step : Step platform relay event next) (working : relay.Working)
    (getsOn : ∀ call, event = .reader call → call.GetsOn) {count : ℕ}
    (missing : (injectedChars relay.channel.queue).length < count) :
    next.owed count ≤ relay.owed count ∧ (event.GetsOn → next.owed count < relay.owed count) := by
  rcases working with ⟨reader, present, looping⟩
  cases step with
  | write bytes => exact ⟨le_refl _, False.elim⟩
  | keystroke key =>
      refine ⟨?_, False.elim⟩
      have noChar : injectedChars [TermInput.typed key] = [] := rfl
      simp [owed, present, Channel.type, injectedChars_append, noChar]
  | start buffer absent => simp [present] at absent
  | reader call same readerNext channel samePresent readerStep =>
      have readerEq : reader = same := Option.some.inj (present.symm.trans samePresent)
      subst readerEq
      have smaller := readerStep.owed_lt looping (getsOn call rfl) missing
      simp only [owed, present]
      exact ⟨smaller.le, fun _ => smaller⟩

/-- As long as something is missing in the terminal, the thread can get on. -/
theorem enabled_of_missing (working : relay.Working)
    (conserved : injectedChars relay.channel.queue ++ relay.pending ++ relay.channel.fifo =
      relay.channel.written)
    (missing : (injectedChars relay.channel.queue).length < relay.channel.written.length) :
    Transition.Enabled (step platform) Event.GetsOn relay := by
  rcases working with ⟨reader, present, looping⟩
  have nonempty : reader.pc = .read → relay.channel.fifo ≠ [] := by
    intro atRead empty
    have nothing : relay.pending = [] := by simp [pending, present, Reader.pending, atRead]
    rw [nothing, empty, List.append_nil, List.append_nil] at conserved
    rw [conserved] at missing
    omega
  rcases @Reader.exists_getsOn platform _ _ looping nonempty with ⟨call, getsOn, possible⟩
  refine ⟨.reader call, getsOn, ?_⟩
  simp only [step, present, Option.isSome_map]
  exact possible

/--
In an execution in which the injections deliver and which is fair to the reader thread: what
is in the stream at some moment arrives in the terminal, if from that moment on every read
returns something.
-/
theorem caughtUp_of_fair {execution : Transition.Execution (step platform)}
    (start : execution.state 0 = initial)
    (delivers : ∀ moment answer, execution.event moment = some (.reader (.inject answer)) →
      answer.delivers = true)
    (fair : execution.WeaklyFair Event.GetsOn) {now : ℕ}
    (reads : ∀ moment answer, now ≤ moment →
      execution.event moment = some (.reader (.read answer)) → answer.chunk ≠ [])
    (working : (execution.state now).Working) :
    ∃ later, now ≤ later ∧
      (execution.state now).channel.written <+:
        injectedChars (execution.state later).channel.queue := by
  have conserved : ∀ moment,
      injectedChars (execution.state moment).channel.queue ++ (execution.state moment).pending ++
          (execution.state moment).channel.fifo =
        (execution.state moment).channel.written := by
    intro moment
    have runs := execution.run_history moment
    rw [start] at runs
    apply (books_of_run runs).conservation
    intro answer answer_mem
    rcases List.mem_filterMap.mp answer_mem with ⟨event, event_mem, isInjection⟩
    rcases Transition.Execution.exists_of_mem_history event_mem with ⟨earlier, happens⟩
    cases event with
    | reader call =>
        cases call with
        | inject returned =>
            have returnedEq : returned = answer := Option.some.inj isInjection
            subst returnedEq
            exact delivers earlier returned happens
        | _ => simp [Event.injectReturn?] at isInjection
    | _ => simp [Event.injectReturn?] at isInjection
  have stillWorking : ∀ moment, now ≤ moment → (execution.state moment).Working := by
    intro moment fromNow
    refine Transition.Execution.invariant_from working ?_ fromNow
    intro earlier event _ happens ih
    exact (step_sound (Transition.Execution.step_eq happens)).working ih
  apply fair.delivers (fun relay => relay.channel.written)
    (fun relay => injectedChars relay.channel.queue) owed
  · intro moment event happens
    exact (step_sound (Transition.Execution.step_eq happens)).written_isPrefix
  · intro moment
    rw [← conserved moment, List.append_assoc]
    exact List.prefix_append _ _
  · intro moment fromNow missing
    exact enabled_of_missing (stillWorking moment fromNow) (conserved moment) missing
  · intro moment event count fromNow happens missing
    have step := step_sound (Transition.Execution.step_eq happens)
    refine step.owed_le (stillWorking moment fromNow) ?_ missing
    rintro call rfl
    cases call with
    | test => trivial
    | read answer => exact reads moment answer fromNow happens
    | inject answer => exact delivers moment answer happens
    | endInject => trivial

end Relay

namespace System

/-- The relay the host runs. -/
def relay (system : System) : Relay :=
  { channel := system.channel, reader := system.host.reader }

/-- A step by which the reader thread of the host gets on. -/
def Event.GetsOn : Event → Prop
  | .reader .host call => call.GetsOn
  | _ => False

theorem Event.length_relayEvents (event : Event) : event.relayEvents.length ≤ 1 := by
  simp only [relayEvents]
  split <;> simp

/-- The relay's reader is the host's. -/
theorem Event.eq_reader_of_mem {event : Event} {call : ReaderCall}
    (shown : .reader call ∈ event.relayEvents) : event = .reader .host call := by
  simp only [relayEvents] at shown
  split at shown <;> simp_all

variable {platform : Platform} {system next : System}

theorem Shows.relay_eq {relay : Relay} (shows : Shows platform system relay) :
    relay = system.relay := by
  rcases relay with ⟨channel, reader⟩
  have channelEq : channel = system.channel := shows.channel_eq
  subst channelEq
  have readerEq : reader = system.host.reader := shows.reader_eq
  subst readerEq
  rfl

/-- While the host runs, it can do what its relay can do. -/
theorem enabled_of_relay (running : system.host.Running)
    (enabled : Transition.Enabled (Relay.step platform) Relay.Event.GetsOn system.relay) :
    Transition.Enabled (step platform) Event.GetsOn system := by
  rcases enabled with ⟨event, getsOn, possible⟩
  cases event with
  | reader call =>
      refine ⟨.reader .host call, getsOn, ?_⟩
      cases present : system.host.reader with
      | none => simp [Relay.step, relay, present] at possible
      | some reader =>
          simp only [Relay.step, relay, present, Option.isSome_map] at possible
          simp only [step, stepReader, process, if_pos running, present, Option.isSome_map]
          exact possible
  | write bytes => exact absurd getsOn id
  | keystroke key => exact absurd getsOn id
  | start buffer => exact absurd getsOn id

/-- The host's relay goes through an execution of its own. -/
theorem relay_runs_of_execution {execution : Transition.Execution (step platform)}
    {others : List Child} (start : execution.state 0 = initial others)
    (launched : ∀ moment event, execution.event moment = some event → ¬event.LaunchFault)
    (moment : ℕ) (event : Event) (happens : execution.event moment = some event) :
    Transition.run (Relay.step platform) (execution.state moment).relay event.relayEvents =
      some (execution.state (moment + 1)).relay := by
  have runs := execution.run_history moment
  rw [start] at runs
  have noReturn : ∀ event ∈ execution.history moment, ¬event.ExecReturned := by
    apply no_execReturned_of_launched
    intro event event_mem
    rcases Transition.Execution.exists_of_mem_history event_mem with ⟨earlier, happened⟩
    exact launched earlier event happened
  rcases run_shows runs noReturn with ⟨relay, _, shows⟩
  have equal := shows.relay_eq
  subst equal
  have notNow : ¬event.ExecReturned := fun returned =>
    launched moment event happens (Event.launchFault_of_execReturned returned)
  rcases (step_sound (Transition.Execution.step_eq happens)).shows notNow shows with
    ⟨relayNext, relayRuns, showsNext⟩
  have equal := showsNext.relay_eq
  subst equal
  exact relayRuns

/--
Everything in the stream arrives.  In an execution in which the program is launched, the
injections succeed and the reader thread gets its turns, what has been written at some moment
is in the terminal at some later one, if from that moment on the host runs with its reader
thread and every read returns something.
-/
theorem written_delivered_of_fair {execution : Transition.Execution (step platform)}
    {others : List Child} (start : execution.state 0 = initial others)
    (launched : ∀ moment event, execution.event moment = some event → ¬event.LaunchFault)
    (succeeds : ∀ moment event, execution.event moment = some event → event.InjectionSucceeds)
    (fair : execution.WeaklyFair Event.GetsOn) {now : ℕ}
    (reads : ∀ moment answer, now ≤ moment →
      execution.event moment = some (.reader .host (.read answer)) → answer.chunk ≠ [])
    (running : ∀ moment, now ≤ moment → (execution.state moment).host.Running)
    (present : (execution.state now).host.reader ≠ none) :
    ∃ later, now ≤ later ∧
      (execution.state now).channel.written <+:
        injectedChars (execution.state later).channel.queue := by
  have relayFair : (execution.project relay Event.relayEvents Event.length_relayEvents
      (relay_runs_of_execution start launched)).WeaklyFair Relay.Event.GetsOn := by
    refine fair.project ?_ (fun moment fromNow => enabled_of_relay (running moment fromNow))
    intro event getsOn
    cases event with
    | reader who call =>
        cases who with
        | host => exact ⟨.reader call, rfl, getsOn⟩
        | forked => exact absurd getsOn id
    | _ => exact absurd getsOn id
  have working : (execution.state now).relay.Working := by
    rcases Option.ne_none_iff_exists'.mp present with ⟨reader, readerEq⟩
    have runs := execution.run_history now
    rw [start] at runs
    have wellFormed := (wellFormed_of_run runs).1
    exact ⟨reader, readerEq, wellFormed.looping (running now (le_refl now)) readerEq⟩
  refine @Relay.caughtUp_of_fair platform _ ?_ ?_ relayFair now ?_ working
  · simp only [Transition.Execution.project, start]
    rfl
  · intro moment answer happens
    rcases Transition.Execution.exists_of_project_event happens with ⟨event, eventEq, shown⟩
    have equal := Event.eq_reader_of_mem shown
    subst equal
    exact InjectReturn.delivers_of_complete (succeeds moment _ eventEq)
  · intro moment answer fromNow happens
    rcases Transition.Execution.exists_of_project_event happens with ⟨event, eventEq, shown⟩
    have equal := Event.eq_reader_of_mem shown
    subst equal
    exact reads moment answer fromNow eventEq

/-- In front of an empty pipe the thread has to wait. -/
theorem not_enabled_of_fifo_eq_nil {reader : Reader} (present : system.host.reader = some reader)
    (atRead : reader.pc = .read) (empty : system.channel.fifo = []) :
    ¬Transition.Enabled (step platform) Event.GetsOn system := by
  rintro ⟨event, getsOn, possible⟩
  cases event with
  | reader who call =>
      cases who with
      | forked => exact getsOn
      | host =>
          rcases Option.isSome_iff_exists.mp possible with ⟨next, stepEq⟩
          cases step_sound stepEq with
          | reader who call process same readerNext channel samePresent running hasReader
              readerStep =>
              simp only [System.process, Option.some.injEq] at samePresent
              subst process
              have readerEq : reader = same := Option.some.inj (present.symm.trans hasReader)
              subst readerEq
              cases Reader.step_sound readerStep with
              | report chunk buffer readBytes atRead inPipe =>
                  rw [empty] at inPipe
                  exact getsOn (List.prefix_nil.mp inPipe.2)
              | ignore answer buffer readBytes atRead nothing =>
                  apply getsOn
                  rcases nothing with rfl | ⟨rfl, _⟩ <;> rfl
              | _ => simp_all
  | _ => exact getsOn

/-- A line is written, and read in one piece. -/
def arrivingEvents : List Event :=
  [.main .host (.openPipe 3), .main .host .checkPipe, .main .host (.fork 100),
    .main .host .storePid, .main .host (.startThread (some Buffer.zero)),
    .main .forked (.execlp true), .write [0x61#8, 0x0a#8], .reader .host .test,
    .reader .host (.read (.data [0x61#8, 0x0a#8])), .reader .host (.inject (.ioctl 0)),
    .reader .host (.inject (.ioctl 0)), .reader .host .endInject, .reader .host .test]

theorem arriving_runs :
    (Transition.run (step .linux) (initial []) arrivingEvents).isSome = true := rfl

/-- After that everybody waits. -/
def arriving : Transition.Execution (step .linux) :=
  .ofRun (Option.some_get arriving_runs).symm

theorem written_delivered_of_fair_arriving :
    ∃ later, 7 ≤ later ∧
      (arriving.state 7).channel.written <+:
        injectedChars (arriving.state later).channel.queue := by
  have launched : ∀ event ∈ arrivingEvents, ¬event.LaunchFault := by
    simp [arrivingEvents, Event.LaunchFault]
  have succeeds : ∀ event ∈ arrivingEvents, event.InjectionSucceeds := by
    simp [arrivingEvents, Event.InjectionSucceeds, InjectReturn.complete]
  have reads : ∀ answer, .reader .host (.read answer) ∈ arrivingEvents → answer.chunk ≠ [] := by
    simp [arrivingEvents, OsRead.chunk]
  have blocked : arriving.WeaklyFair Event.GetsOn :=
    Transition.Execution.weaklyFair_ofRun (not_enabled_of_fifo_eq_nil rfl rfl rfl)
  have running : ∀ moment, (arriving.state moment).host.Running :=
    @Transition.Execution.forall_ofRun_state _ _ _ _ _ _ (Option.some_get arriving_runs).symm
      (fun system => system.host.Running) (by decide)
  refine @written_delivered_of_fair .linux arriving [] rfl ?_ ?_ blocked 7 ?_ ?_ (by decide)
  · intro moment event happens
    exact launched event (Transition.Execution.mem_of_ofRun_event happens)
  · intro moment event happens
    exact succeeds event (Transition.Execution.mem_of_ofRun_event happens)
  · intro moment answer _ happens
    exact reads answer (Transition.Execution.mem_of_ofRun_event happens)
  · intro moment _
    exact running moment

end System

end MiddleMan
