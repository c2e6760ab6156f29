import MiddleMan.Launch
import MiddleMan.Library.Interleaving

/-!
# Two relays on one pipe

A child whose `execlp` returned runs a reader of its own next to the host's.  This file
states what holds of the stream then, and whatever else fails.  Every reader gets its own
share of the stream and works through it in order, so the attempts at injection are an
interleaving of two shares; no byte is taken, tried or injected twice, and none is made up.

What can get lost are the characters whose injection failed and the rest of a chunk in the
hand of a reader whose process has died.
-/

namespace MiddleMan

/-- What a reader takes out of the pipe by a call. -/
def ReaderCall.chunk : ReaderCall → List Byte
  | .read (.data chunk) => chunk
  | _ => []

/-- The injection call a reader makes, with the character it is made for. -/
def ReaderCall.attempt (pending : List Byte) : ReaderCall → List (Byte × InjectReturn)
  | .inject answer => (pending.take 1).map fun character => (character, answer)
  | _ => []

/-- A reader's part of the stream. -/
structure Share where
  taken : List Byte
  /-- The characters injection was tried for, with the answers. -/
  calls : List (Byte × InjectReturn)
  inHand : List Byte

namespace Share

/-- The reader goes through what it takes in order. -/
def InOrder (share : Share) : Prop :=
  share.taken = share.calls.map Prod.fst ++ share.inHand

/-- The share after a step of its reader, which then has `inHand`. -/
def after (share : Share) (call : ReaderCall) (inHand : List Byte) : Share :=
  { taken := share.taken ++ call.chunk
    calls := share.calls ++ call.attempt share.inHand
    inHand := inHand }

end Share

namespace Channel

/-- All that was taken out of the pipe and all attempts at injection are those of two readers. -/
structure SharedOut (channel : Channel) (share otherShare : Share) : Prop where
  taken : Interleaves share.taken otherShare.taken channel.taken
  calls : Interleaves share.calls otherShare.calls channel.calls
  inOrder : share.InOrder
  otherInOrder : otherShare.InOrder

variable {channel : Channel} {share otherShare : Share}

theorem SharedOut.symm (shared : channel.SharedOut share otherShare) :
    channel.SharedOut otherShare share :=
  ⟨shared.taken.symm, shared.calls.symm, shared.otherInOrder, shared.inOrder⟩

/-- All bytes are still there: tried, in the hand of a reader, or in the pipe. -/
theorem SharedOut.perm {platform : Platform} (shared : channel.SharedOut share otherShare)
    (consistent : channel.Consistent platform) :
    channel.written.Perm
      (channel.calls.map Prod.fst ++ share.inHand ++ otherShare.inHand ++ channel.fifo) := by
  have inOrder := shared.inOrder
  have otherInOrder := shared.otherInOrder
  have tried : (channel.calls.map Prod.fst).Perm
      (share.calls.map Prod.fst ++ otherShare.calls.map Prod.fst) := by
    rw [← List.map_append]
    exact shared.calls.perm.map Prod.fst
  rw [Share.InOrder] at inOrder otherInOrder
  rw [← consistent.written_eq]
  apply List.Perm.append_right
  calc
    channel.taken.Perm (share.taken ++ otherShare.taken) := shared.taken.perm
    _ |>.Perm (share.calls.map Prod.fst ++ otherShare.calls.map Prod.fst ++ share.inHand ++
          otherShare.inHand) := by
        rw [inOrder, otherInOrder]
        simp only [List.append_assoc]
        apply List.Perm.append_left
        exact List.perm_append_comm_assoc _ _ _
    _ |>.Perm (channel.calls.map Prod.fst ++ share.inHand ++ otherShare.inHand) :=
        (tried.symm.append_right share.inHand).append_right otherShare.inHand

end Channel

/-- A step of one of two readers enlarges its share and leaves the other one alone. -/
theorem Reader.Step.sharedOut {platform : Platform} {channel channelNext : Channel}
    {reader next : Reader} {call : ReaderCall} {share otherShare : Share}
    (step : Reader.Step platform channel reader call channelNext next)
    (inHand : share.inHand = reader.pending) (shared : channel.SharedOut share otherShare) :
    channelNext.SharedOut (share.after call next.pending) otherShare := by
  have inOrder := shared.inOrder
  rw [Share.InOrder, inHand] at inOrder
  -- a call by which nothing is taken and nothing is tried
  have quiet : channelNext = channel → call.chunk = [] → call.attempt share.inHand = [] →
      next.pending = reader.pending →
        channelNext.SharedOut (share.after call next.pending) otherShare := by
    rintro rfl noChunk noAttempt sameInHand
    refine ⟨?_, ?_, ?_, shared.otherInOrder⟩
    · simpa [Share.after, noChunk] using shared.taken
    · simpa [Share.after, noAttempt] using shared.calls
    · simpa [Share.InOrder, Share.after, noChunk, noAttempt, sameInHand] using inOrder
  cases step with
  | test atTest =>
      apply quiet rfl rfl rfl
      cases continues : reader.continueFlag <;> simp [Reader.pending, atTest]
  | report chunk buffer readBytes atRead possible =>
      have nothing : reader.pending = [] := by simp [Reader.pending, atRead]
      rw [nothing, List.append_nil] at inOrder
      refine ⟨shared.taken.append_left chunk, ?_, ?_, shared.otherInOrder⟩
      · simpa [Share.after, ReaderCall.attempt, Channel.take] using shared.calls
      · simp [Share.InOrder, Share.after, ReaderCall.chunk, ReaderCall.attempt, Reader.pending,
          inOrder]
  | ignore answer buffer readBytes atRead empty =>
      have noChunk : (ReaderCall.read answer).chunk = [] := by
        rcases empty with rfl | ⟨rfl, _⟩ <;> rfl
      apply quiet rfl noChunk rfl
      simp [Reader.pending, atRead]
  | inject character text answer atInject possible =>
      have pendingEq : reader.pending = character :: text := by simp [Reader.pending, atInject]
      have attempt : (ReaderCall.inject answer).attempt share.inHand = [(character, answer)] := by
        rw [inHand, pendingEq]
        rfl
      refine ⟨?_, ?_, ?_, shared.otherInOrder⟩
      · simpa [Share.after, ReaderCall.chunk, Channel.inject] using shared.taken
      · simp only [Share.after, attempt, Channel.inject]
        exact shared.calls.append_left [(character, answer)]
      · rw [pendingEq] at inOrder
        simp [Share.InOrder, Share.after, ReaderCall.chunk, attempt, inOrder, Reader.pending]
  | endInject atEnd =>
      apply quiet rfl rfl rfl
      simp [Reader.pending, atEnd]

namespace Process

variable {platform : Platform} {process next : Process}

/-- The main thread puts nothing into the hand of a reader and takes nothing out of it. -/
theorem MainStep.pending_eq {call : MainCall} (step : MainStep platform process call next)
    (wellFormed : process.WellFormed platform) : next.pending = process.pending := by
  rcases step.reader_eq with unchanged | ⟨buffer, _, atPc, started⟩
  · rw [pending, pending, unchanged]
  · simp only [WellFormed, atPc] at wellFormed
    rw [pending, pending, started, wellFormed.2.1]
    rfl

end Process

namespace System

variable {platform : Platform} {system next : System}

/-- What the reader of the forked child has in hand. -/
def forkedPending (system : System) : List Byte :=
  match system.forked with
  | none => []
  | some process => process.pending

/-- What the reader of one of the processes has in hand. -/
def pendingBy (system : System) : Who → List Byte
  | .host => system.host.pending
  | .forked => system.forkedPending

/-- What the reader of one process takes out of the pipe in an event. -/
def Event.chunkBy (who : Who) : Event → List Byte
  | .reader party call => if party = who then call.chunk else []
  | _ => []

/-- The injection call which the reader of one process makes in an event. -/
def attemptBy (who : Who) (system : System) : Event → List (Byte × InjectReturn)
  | .reader party call => if party = who then call.attempt (system.pendingBy who) else []
  | _ => []

/-- The bytes which the reader of one process took out of the pipe in a run. -/
def takenBy (who : Who) (events : List Event) : List Byte :=
  events.flatMap (Event.chunkBy who)

/-- The injection calls which the reader of one process made in a run. -/
def callsBy (platform : Platform) (who : Who) (start : System) (events : List Event) :
    List (Byte × InjectReturn) :=
  Transition.observed (step platform) (attemptBy who) start events

/-- The share of the stream which the reader of one process has after a run. -/
def shareBy (platform : Platform) (start : System) (events : List Event) (system : System)
    (who : Who) : Share :=
  { taken := takenBy who events
    calls := callsBy platform who start events
    inHand := system.pendingBy who }

section Books

variable {base : HandleTable} {others : List Child} {events : List Event} {start final : System}
  {event : Event}

/-- An event in which the reader takes no part leaves its share as it is. -/
theorem shareBy_concat_of_quiet
    (runs : Transition.run (step platform) start events = some system) {who : Who}
    (notReader : ∀ call, event ≠ .reader who call)
    (sameInHand : next.pendingBy who = system.pendingBy who) :
    shareBy platform start (events ++ [event]) next who =
      shareBy platform start events system who := by
  have nothing : event.chunkBy who = [] ∧ system.attemptBy who event = [] := by
    cases event with
    | reader party call =>
        have otherParty : party ≠ who := by
          rintro rfl
          exact notReader call rfl
        exact ⟨if_neg otherParty, if_neg otherParty⟩
    | _ => exact ⟨rfl, rfl⟩
  rw [shareBy, takenBy, List.flatMap_append, callsBy,
    Transition.observed_concat (attemptBy who) runs event, nothing.2, sameInHand]
  simp [shareBy, takenBy, callsBy, nothing.1]

/-- A call of the reader enlarges its share. -/
theorem shareBy_concat_reader
    (runs : Transition.run (step platform) start events = some system) (who : Who)
    (call : ReaderCall) (next : System) :
    shareBy platform start (events ++ [.reader who call]) next who =
      (shareBy platform start events system who).after call (next.pendingBy who) := by
  rw [shareBy, takenBy, List.flatMap_append, callsBy,
    Transition.observed_concat (attemptBy who) runs (.reader who call)]
  simp [shareBy, Share.after, takenBy, callsBy, Event.chunkBy, attemptBy]

/-- What is known of the stream in every run, with one reader or with two. -/
structure Shares (platform : Platform) (start : System) (events : List Event) (system : System) :
    Prop where
  runs : Transition.run (step platform) start events = some system
  wellFormed : system.WellFormed platform
  order : system.LaunchOrder
  consistent : system.channel.Consistent platform
  sharedOut : system.channel.SharedOut (shareBy platform start events system .host)
    (shareBy platform start events system .forked)

theorem shares_entering (base : HandleTable) (others : List Child) :
    Shares platform (entering base others) [] (entering base others) where
  runs := rfl
  wellFormed := wellFormed_entering base others
  order := launchOrder_entering base others
  consistent := Channel.consistent_initial
  sharedOut := ⟨Interleaves.nil, Interleaves.nil, rfl, rfl⟩

/-- Only the readers change what they have in hand. -/
theorem Step.pendingBy_eq (step : Step platform system event next)
    (wellFormed : system.WellFormed platform) (order : system.LaunchOrder)
    (notReader : ∀ who call, event ≠ .reader who call) (who : Who) :
    next.pendingBy who = system.pendingBy who := by
  cases step with
  | hostMain call process mainStep =>
      cases who with
      | host =>
          rw [pendingBy, pendingBy, afterHost_host]
          exact mainStep.pending_eq wellFormed.1
      | forked =>
          rw [pendingBy, pendingBy, forkedPending, forkedPending]
          rcases system.afterHost_forked process call with unchanged | ⟨pid, rfl, _, copied⟩
          · rw [unchanged]
          · -- the copy has no reader, and there was no child before it
            cases mainStep with
            | fork pid atPc onLinux answer =>
                rw [copied, (order.early (by simp [atPc, MainPc.Early])).2]
                rfl
  | forkedMain call process processNext present mainStep =>
      cases who with
      | host =>
          rcases system.afterForked_host processNext call with ⟨children, hostEq⟩
          rw [pendingBy, pendingBy, hostEq]
          rfl
      | forked =>
          rw [pendingBy, pendingBy, forkedPending, forkedPending, afterForked_forked, present]
          exact mainStep.pending_eq (wellFormed.2 process present)
  | programExit running =>
      cases who with
      | host =>
          rcases reportExit_host { system with program := .exited } with ⟨children, hostEq⟩
          rw [pendingBy, pendingBy, hostEq]
          rfl
      | forked => rw [pendingBy, pendingBy, forkedPending, reportExit_forked, forkedPending]
  | reader party call process reader readerNext channel present running hasReader readerStep =>
      exact absurd rfl (notReader party call)
  | write bytes => cases who <;> rfl
  | keystroke key => cases who <;> rfl
  | childExit pid other => cases who <;> rfl
  | childReaped pid onLinux exited => cases who <;> rfl

/-- Only the readers take bytes out of the pipe and inject them. -/
theorem Step.taken_and_calls_eq (step : Step platform system event next)
    (notReader : ∀ who call, event ≠ .reader who call) :
    next.channel.taken = system.channel.taken ∧ next.channel.calls = system.channel.calls := by
  cases step with
  | hostMain call process mainStep => rw [afterHost_channel]; exact ⟨rfl, rfl⟩
  | forkedMain call process processNext present mainStep =>
      rw [afterForked_channel]
      exact ⟨rfl, rfl⟩
  | programExit running => rw [reportExit_channel]; exact ⟨rfl, rfl⟩
  | reader party call process reader readerNext channel present running hasReader readerStep =>
      exact absurd rfl (notReader party call)
  | _ => exact ⟨rfl, rfl⟩

/-- The steps of a reader show in its own share only. -/
theorem Step.sharedOut_reader {party : Who} {call : ReaderCall}
    (step : Step platform system (.reader party call) next)
    (shares : Shares platform start events system) :
    next.channel.SharedOut (shareBy platform start (events ++ [.reader party call]) next .host)
      (shareBy platform start (events ++ [.reader party call]) next .forked) := by
  have enlarged := shareBy_concat_reader shares.runs party call next
  have otherShare : ∀ who, party ≠ who → next.pendingBy who = system.pendingBy who →
      shareBy platform start (events ++ [.reader party call]) next who =
        shareBy platform start events system who := by
    intro who different
    apply shareBy_concat_of_quiet shares.runs
    intro same sameEq
    exact different (Event.reader.inj sameEq).1
  cases step with
  | reader _ _ process reader readerNext channel present running hasReader readerStep =>
      have readerStep := Reader.step_sound readerStep
      have inHand : process.pending = reader.pending := by
        rw [Process.pending, hasReader]
      cases party with
      | host =>
          simp only [System.process, Option.some.injEq] at present
          subst process
          rw [enlarged, otherShare .forked (by simp) rfl]
          exact readerStep.sharedOut inHand shares.sharedOut
      | forked =>
          simp only [System.process] at present
          have forkedInHand : system.forkedPending = reader.pending := by
            rw [forkedPending, present]
            exact inHand
          rw [enlarged, otherShare .host (by simp) rfl]
          exact (readerStep.sharedOut forkedInHand shares.sharedOut.symm).symm

theorem Step.shares (step : Step platform system event next)
    (stepEq : system.step platform event = some next)
    (shares : Shares platform start events system) :
    Shares platform start (events ++ [event]) next where
  runs := Transition.run_concat_iff.mpr ⟨system, shares.runs, stepEq⟩
  wellFormed := step.wellFormed shares.wellFormed
  order := step.launchOrder shares.order
  consistent := step.consistent shares.consistent
  sharedOut := by
    by_cases isReader : ∃ party call, event = .reader party call
    · rcases isReader with ⟨party, call, rfl⟩
      exact step.sharedOut_reader shares
    · have notReader : ∀ who call, event ≠ .reader who call := by
        intro who call eventEq
        exact isReader ⟨who, call, eventEq⟩
      have sameInHand := step.pendingBy_eq shares.wellFormed shares.order notReader
      rcases step.taken_and_calls_eq notReader with ⟨takenEq, callsEq⟩
      rw [shareBy_concat_of_quiet shares.runs (notReader .host) (sameInHand .host),
        shareBy_concat_of_quiet shares.runs (notReader .forked) (sameInHand .forked)]
      have sharedOut := shares.sharedOut
      refine ⟨?_, ?_, sharedOut.inOrder, sharedOut.otherInOrder⟩
      · rw [takenEq]
        exact sharedOut.taken
      · rw [callsEq]
        exact sharedOut.calls

theorem shares_of_run
    (runs : Transition.run (step platform) (entering base others) events = some final) :
    Shares platform (entering base others) events final :=
  Transition.history_invariant (Shares platform (entering base others))
    (shares_entering base others)
    (fun _ _ _ _ shares stepEq => (step_sound stepEq).shares stepEq shares) runs

end Books

/-- What arrived in the terminal was tried, each byte of it at most as often as it was written. -/
theorem Shares.injectedChars_subperm {start : System} {events : List Event}
    (shares : Shares platform start events system) :
    (injectedChars system.channel.queue).Subperm system.channel.written := by
  have arrived : (injectedChars system.channel.queue).Sublist
      (system.channel.calls.map Prod.fst) := by
    rw [shares.consistent.injectedChars_eq, Delivery.received]
    exact List.filter_sublist.map Prod.fst
  have tried := shares.sharedOut.perm shares.consistent
  apply arrived.subperm.trans
  apply List.Subperm.trans _ tried.symm.subperm
  simp only [List.append_assoc]
  exact (List.sublist_append_left _ _).subperm

theorem Step.calls_delivered {event : Event} (step : Step platform system event next)
    (succeeds : event.InjectionSucceeds)
    (delivered : ∀ call ∈ system.channel.calls, call.2.delivers = true) :
    ∀ call ∈ next.channel.calls, call.2.delivers = true := by
  cases step with
  | reader who call process reader readerNext channel present running hasReader readerStep =>
      have channelDelivered : ∀ entry ∈ channel.calls, entry.2.delivers = true := by
        cases Reader.step_sound readerStep with
        | inject character text answer atInject possible =>
            intro entry entry_mem
            rcases List.mem_append.mp entry_mem with old_mem | new_mem
            · exact delivered entry old_mem
            · simp only [List.mem_singleton] at new_mem
              subst entry
              exact InjectReturn.delivers_of_complete succeeds
        | test atTest => exact delivered
        | report chunk buffer readBytes atRead possible => exact delivered
        | ignore answer buffer readBytes atRead empty => exact delivered
        | endInject atEnd => exact delivered
      cases who with
      | host => exact channelDelivered
      | forked => exact channelDelivered
  | write bytes => exact delivered
  | keystroke key => exact delivered
  | hostMain call process mainStep => rwa [afterHost_channel]
  | forkedMain call process processNext present mainStep => rwa [afterForked_channel]
  | programExit running => rwa [reportExit_channel]
  | childExit pid other => exact delivered
  | childReaped pid onLinux exited => exact delivered

theorem calls_delivered_of_run {others : List Child} {events : List Event} {final : System}
    (runs : Transition.run (step platform) (initial others) events = some final)
    (succeeds : ∀ event ∈ events, event.InjectionSucceeds) :
    ∀ call ∈ final.channel.calls, call.2.delivers = true :=
  Transition.invariant_of_allowed Event.InjectionSucceeds
    (by simp [initial, entering, Channel.initial])
    (fun _ _ _ delivered eventSucceeds stepEq =>
      (step_sound stepEq).calls_delivered eventSucceeds delivered)
    runs succeeds

/--
Whatever `fork`, `execlp` and the injection calls did: what was taken out of the pipe is an
interleaving of what the two readers took, and the injection calls are an interleaving of
theirs.  Each reader goes through what it took in order, up to the rest in its hand, and what
arrived in the terminal are the calls which were delivered.
-/
theorem attempts_interleave {others : List Child} {events : List Event} {final : System}
    (runs : Transition.run (step platform) (initial others) events = some final) :
    final.channel.taken ++ final.channel.fifo = final.channel.written ∧
      Interleaves (takenBy .host events) (takenBy .forked events) final.channel.taken ∧
        Interleaves (callsBy platform .host (initial others) events)
            (callsBy platform .forked (initial others) events) final.channel.calls ∧
          (∀ who, takenBy who events =
            (callsBy platform who (initial others) events).map Prod.fst ++
              final.pendingBy who) ∧
            injectedChars final.channel.queue =
              Delivery.received InjectReturn.delivers final.channel.calls := by
  have shares := shares_of_run runs
  have sharedOut := shares.sharedOut
  refine ⟨shares.consistent.written_eq, sharedOut.taken, sharedOut.calls, ?_,
    shares.consistent.injectedChars_eq⟩
  intro who
  cases who with
  | host => exact sharedOut.inOrder
  | forked => exact sharedOut.otherInOrder

theorem swapping_runs :
    (Transition.run (step .linux) (initial []) swappingEvents).isSome = true := rfl

theorem attempts_interleave_swapping :
    ∃ final, Transition.run (step .linux) (initial []) swappingEvents = some final ∧
      final.channel.taken ++ final.channel.fifo = final.channel.written ∧
        Interleaves (takenBy .host swappingEvents) (takenBy .forked swappingEvents)
            final.channel.taken ∧
          Interleaves (callsBy .linux .host (initial []) swappingEvents)
              (callsBy .linux .forked (initial []) swappingEvents) final.channel.calls ∧
            (∀ who, takenBy who swappingEvents =
              (callsBy .linux who (initial []) swappingEvents).map Prod.fst ++
                final.pendingBy who) ∧
              injectedChars final.channel.queue =
                Delivery.received InjectReturn.delivers final.channel.calls := by
  rcases Option.isSome_iff_exists.mp swapping_runs with ⟨final, runs⟩
  exact ⟨final, runs, attempts_interleave runs⟩

/--
In every run no byte arrives in the terminal more often than it was written.  If all
injections succeed, the bytes written are those which arrived, those in the hand of the two
readers and those in the pipe, in whatever order.
-/
theorem injected_subperm_written {others : List Child} {events : List Event} {final : System}
    (runs : Transition.run (step platform) (initial others) events = some final) :
    (injectedChars final.channel.queue).Subperm final.channel.written ∧
      ((∀ event ∈ events, event.InjectionSucceeds) →
        final.channel.written.Perm
          (injectedChars final.channel.queue ++ final.host.pending ++ final.forkedPending ++
            final.channel.fifo)) := by
  have shares := shares_of_run runs
  refine ⟨shares.injectedChars_subperm, ?_⟩
  intro succeeds
  rw [shares.consistent.injectedChars_eq,
    Delivery.received_eq_of_forall (calls_delivered_of_run runs succeeds)]
  exact shares.sharedOut.perm shares.consistent

theorem injected_subperm_written_swapping :
    ∃ final, Transition.run (step .linux) (initial []) swappingEvents = some final ∧
      (injectedChars final.channel.queue).Subperm final.channel.written ∧
        ((∀ event ∈ swappingEvents, event.InjectionSucceeds) →
          final.channel.written.Perm
            (injectedChars final.channel.queue ++ final.host.pending ++ final.forkedPending ++
              final.channel.fifo)) := by
  rcases Option.isSome_iff_exists.mp swapping_runs with ⟨final, runs⟩
  exact ⟨final, runs, injected_subperm_written runs⟩

end System

end MiddleMan
