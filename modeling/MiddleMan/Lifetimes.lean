import MiddleMan.System

/-!
# Lifetimes: the locals of `StartMiddleMan` and the threads

The reader thread captures `Pipe` by reference, is never joined and never told to stop.
`Process.WellFormed` says for each point of the main thread which locals exist and
whether the reader runs; it is an invariant of both processes.

Two things follow.  The reader never uses a pipe which is not there.  And once the main
thread leaves the scope after `Wait`, it finds the thread object joinable and ends in
`std::terminate`, whatever the reader did.
-/

namespace MiddleMan

namespace Process

/-- `Pipe` is constructed, was opened successfully, and its descriptor or handle is open. -/
def PipeUsable (platform : Platform) (process : Process) : Prop :=
  ∃ pipe, process.pipe = .alive pipe ∧ pipe.successfullyConstructed = true ∧
    GeneralPipe.resource platform pipe.descriptor ∈ process.table

/-- The reader is in its loop, over a usable pipe and behind a joinable thread object. -/
def Relaying (platform : Platform) (process : Process) : Prop :=
  process.PipeUsable platform ∧ process.pipeReader = .alive { joinable := true } ∧
    ∃ reader, process.reader = some reader ∧ reader.Looping

/-- The locals and the reader thread at each point of the main thread. -/
def WellFormed (platform : Platform) (process : Process) : Prop :=
  match process.main with
  | .constructPipe => process.frame = [] ∧ process.reader = none
  | .checkPipe =>
      process.frame = [.pipe] ∧ process.reader = none ∧
        ∀ pipe, process.pipe = .alive pipe → pipe.successfullyConstructed = true →
          process.PipeUsable platform
  | .launch | .execlp | .storePid _ =>
      process.frame = [.pipe] ∧ process.reader = none ∧ process.PipeUsable platform
  | .startThread =>
      process.frame = [.process, .pipe] ∧ process.reader = none ∧ process.PipeUsable platform
  | .wait | .return0 =>
      process.frame = [.pipeReader, .process, .pipe] ∧ process.Relaying platform
  -- left behind `Wait` with the thread object, or earlier without one
  | .unwind exit =>
      process.frame = [.pipeReader, .process, .pipe] ∧ process.Relaying platform ∨
        .pipeReader ∉ process.frame ∧ process.reader = none ∧ exit ≠ .returned 0
  | .left exit => process.reader = none ∧ exit ≠ .returned 0
  | .terminating => process.Relaying platform
  | .dead => True
  | .replaced => process.reader = none

variable {platform : Platform} {process next : Process}

theorem wellFormed_entering (base : HandleTable) (children : List Child) :
    (entering base children).WellFormed platform :=
  ⟨rfl, rfl⟩

theorem pipeUsable_openInto {result : ℤ} (answer : OpenAnswer process.table result)
    {pipe : GeneralPipe}
    (pipeEq : pipe = GeneralPipe.construct platform result)
    (opened : pipe.successfullyConstructed = true) :
    GeneralPipe.resource platform pipe.descriptor ∈
      GeneralPipe.openInto platform result process.table := by
  subst pipe
  rw [GeneralPipe.construct_successful_iff platform answer] at opened
  rw [GeneralPipe.openInto, if_neg opened]
  exact List.mem_cons_self

theorem MainStep.wellFormed {call : MainCall} (step : MainStep platform process call next)
    (wellFormed : process.WellFormed platform) : next.WellFormed platform := by
  cases step with
  | openPipe result atPc answer =>
      simp only [WellFormed, atPc] at wellFormed
      rcases wellFormed with ⟨frameEq, noReader⟩
      refine ⟨by simp [frameEq], noReader, ?_⟩
      intro pipe alive opened
      exact ⟨pipe, alive, opened,
        pipeUsable_openInto answer (Lifetime.alive.inj alive).symm opened⟩
  | pipeFailed pipe atPc alive failed =>
      simp only [WellFormed, atPc] at wellFormed
      rcases wellFormed with ⟨frameEq, noReader, _⟩
      exact Or.inr ⟨by simp [frameEq], noReader, by simp⟩
  | pipeOpened pipe atPc alive opened =>
      simp only [WellFormed, atPc] at wellFormed
      rcases wellFormed with ⟨frameEq, noReader, usable⟩
      exact ⟨frameEq, noReader, usable pipe alive opened⟩
  | fork pid atPc onLinux answer =>
      simp only [WellFormed, atPc] at wellFormed
      exact wellFormed
  | createProcess created atPc onWindows answer =>
      simp only [WellFormed, atPc] at wellFormed
      rcases wellFormed with ⟨frameEq, noReader, pipe, alive, opened, isOpen⟩
      exact ⟨by simp [frameEq], noReader, pipe, alive, opened,
        List.mem_append_right _ isOpen⟩
  | execReplaced atPc =>
      simp only [WellFormed, atPc] at wellFormed
      exact wellFormed.2.1
  | execReturned atPc =>
      simp only [WellFormed, atPc] at wellFormed
      exact wellFormed
  | storePid pid atPc =>
      simp only [WellFormed, atPc] at wellFormed
      rcases wellFormed with ⟨frameEq, noReader, usable⟩
      exact ⟨by simp [frameEq], noReader, usable⟩
  | threadStarted buffer atPc =>
      simp only [WellFormed, atPc] at wellFormed
      rcases wellFormed with ⟨frameEq, _, usable⟩
      exact ⟨by simp [frameEq], usable, rfl, _, rfl, Reader.looping_start buffer⟩
  | threadThrew atPc =>
      simp only [WellFormed, atPc] at wellFormed
      rcases wellFormed with ⟨frameEq, noReader, _⟩
      exact Or.inr ⟨by simp [frameEq], noReader, by simp⟩
  | wait launched answer children atPc alive returns =>
      simp only [WellFormed, atPc] at wellFormed
      exact wellFormed
  | return0 atPc =>
      simp only [WellFormed, atPc] at wellFormed
      exact Or.inl wellFormed
  | destroyJoinable exit frame thread atPc frameEq alive joinable =>
      simp only [WellFormed, atPc] at wellFormed
      rcases wellFormed with ⟨_, relaying⟩ | ⟨noThread, _⟩
      · exact relaying
      · exact absurd (by simp [frameEq]) noThread
  | destroyThread exit frame thread atPc frameEq alive notJoinable =>
      simp only [WellFormed, atPc] at wellFormed
      rcases wellFormed with ⟨_, relaying⟩ | ⟨noThread, _⟩
      · rw [relaying.2.1, Lifetime.alive.injEq] at alive
        subst thread
        simp at notJoinable
      · exact absurd (by simp [frameEq]) noThread
  | destroyProcess exit frame launched atPc frameEq alive =>
      simp only [WellFormed, atPc, frameEq] at wellFormed ⊢
      rcases wellFormed with ⟨impossible, _⟩ | ⟨noThread, noReader, notZero⟩
      · simp at impossible
      · exact Or.inr ⟨fun thread_mem => noThread (List.mem_cons_of_mem _ thread_mem), noReader,
          notZero⟩
  | destroyPipe exit frame pipe atPc frameEq alive =>
      simp only [WellFormed, atPc, frameEq] at wellFormed ⊢
      rcases wellFormed with ⟨impossible, _⟩ | ⟨noThread, noReader, notZero⟩
      · simp at impossible
      · exact Or.inr ⟨fun thread_mem => noThread (List.mem_cons_of_mem _ thread_mem), noReader,
          notZero⟩
  | leave exit atPc frameEq =>
      simp only [WellFormed, atPc, frameEq] at wellFormed
      rcases wellFormed with ⟨impossible, _⟩ | ⟨_, noReader, notZero⟩
      · simp at impossible
      · exact ⟨noReader, notZero⟩
  | die atPc => trivial

theorem WellFormed.forkedCopy (wellFormed : process.WellFormed platform)
    (atPc : process.main = .launch) : process.forkedCopy.WellFormed platform := by
  simp only [WellFormed, atPc] at wellFormed
  exact ⟨wellFormed.1, rfl, wellFormed.2.2⟩

theorem WellFormed.withChildren (wellFormed : process.WellFormed platform)
    (children : List Child) : { process with children := children }.WellFormed platform :=
  wellFormed

/-- A process with a reader thread is relaying as long as it lives. -/
theorem WellFormed.relaying (wellFormed : process.WellFormed platform)
    (running : process.Running) {reader : Reader} (hasReader : process.reader = some reader) :
    process.Relaying platform := by
  simp only [WellFormed] at wellFormed
  cases pcEq : process.main with
  | wait =>
      simp only [pcEq] at wellFormed
      exact wellFormed.2
  | return0 =>
      simp only [pcEq] at wellFormed
      exact wellFormed.2
  | terminating =>
      simp only [pcEq] at wellFormed
      exact wellFormed
  | unwind exit =>
      simp only [pcEq] at wellFormed
      rcases wellFormed with ⟨_, relaying⟩ | ⟨_, noReader, _⟩
      · exact relaying
      · simp [noReader] at hasReader
  | dead => exact absurd pcEq running.1
  | _ =>
      simp only [pcEq] at wellFormed
      simp_all

theorem WellFormed.looping (wellFormed : process.WellFormed platform) (running : process.Running)
    {reader : Reader} (hasReader : process.reader = some reader) : reader.Looping := by
  rcases (wellFormed.relaying running hasReader).2.2 with ⟨same, sameEq, looping⟩
  rw [hasReader, Option.some.injEq] at sameEq
  rwa [sameEq]

theorem WellFormed.withReader (wellFormed : process.WellFormed platform)
    (running : process.Running) {reader readerNext : Reader}
    (hasReader : process.reader = some reader) (looping : readerNext.Looping) :
    { process with reader := some readerNext }.WellFormed platform := by
  have relaying := wellFormed.relaying running hasReader
  have relayingNext : { process with reader := some readerNext }.Relaying platform :=
    ⟨relaying.1, relaying.2.1, readerNext, rfl, looping⟩
  simp only [WellFormed] at wellFormed ⊢
  cases pcEq : process.main with
  | wait =>
      simp only [pcEq] at wellFormed ⊢
      exact ⟨wellFormed.1, relayingNext⟩
  | return0 =>
      simp only [pcEq] at wellFormed ⊢
      exact ⟨wellFormed.1, relayingNext⟩
  | terminating =>
      simp only [pcEq] at wellFormed ⊢
      exact relayingNext
  | unwind exit =>
      simp only [pcEq] at wellFormed ⊢
      rcases wellFormed with ⟨frameEq, _⟩ | ⟨_, noReader, _⟩
      · exact Or.inl ⟨frameEq, relayingNext⟩
      · simp [noReader] at hasReader
  | dead => exact absurd pcEq running.1
  | _ =>
      simp only [pcEq] at wellFormed
      simp_all

end Process

namespace System

variable {platform : Platform} {system next : System}

/-- Both processes, where there are two, are well formed. -/
def WellFormed (platform : Platform) (system : System) : Prop :=
  system.Both (Process.WellFormed platform)

theorem wellFormed_entering (base : HandleTable) (others : List Child) :
    (entering base others).WellFormed platform :=
  ⟨Process.wellFormed_entering base others, by simp [entering]⟩

theorem processInvariant_wellFormed :
    ProcessInvariant platform (Process.WellFormed platform) where
  mainStep _ _ _ wellFormed mainStep := mainStep.wellFormed wellFormed
  forkedCopy _ wellFormed _ atPc := wellFormed.forkedCopy atPc
  withChildren _ children wellFormed := wellFormed.withChildren children
  withReader process reader next channel channelNext call wellFormed running hasReader
      readerStep := by
    have looping := wellFormed.looping running hasReader
    exact wellFormed.withReader running hasReader ((Reader.step_sound readerStep).looping looping)

theorem Step.wellFormed {event : Event} (step : Step platform system event next)
    (wellFormed : system.WellFormed platform) : next.WellFormed platform :=
  step.both processInvariant_wellFormed wellFormed

theorem wellFormed_of_run {base : HandleTable} {others : List Child} {events : List Event}
    {final : System}
    (runs : Transition.run (step platform) (entering base others) events = some final) :
    final.WellFormed platform :=
  both_of_run processInvariant_wellFormed (Process.wellFormed_entering base others) runs

/-! ## The reader and the pipe -/

/-- The reader thread of the process is in `Pipe.Read`. -/
def InRead (process : Process) : Prop :=
  process.Running ∧ ∃ reader, process.reader = some reader ∧ reader.pc = .read

/--
Whenever the reader thread of either process is in `Read`, the pipe it captured is
constructed, was opened successfully, and is neither destroyed nor closed.
-/
theorem pipeUsable_of_inRead {others : List Child} {events : List Event} {final : System}
    (runs : Transition.run (step platform) (initial others) events = some final) {who : Who}
    {process : Process} (present : final.process who = some process) (inRead : InRead process) :
    process.PipeUsable platform := by
  have wellFormed := wellFormed_of_run runs
  rcases inRead with ⟨running, reader, hasReader, _⟩
  cases who with
  | host =>
      simp only [System.process, Option.some.injEq] at present
      subst process
      exact (wellFormed.1.relaying running hasReader).1
  | forked => exact ((wellFormed.2 process present).relaying running hasReader).1

/-- The forked child of a returning `execlp` reads as well, from its copy of the pipe. -/
def forkedReadEvents : List Event :=
  [.main .host (.openPipe 3), .main .host .checkPipe, .main .host (.fork 100),
    .main .forked (.execlp false), .main .forked .storePid,
    .main .forked (.startThread (some Buffer.zero)), .reader .forked .test]

theorem pipeUsable_of_inRead_forked :
    ∃ final process,
      Transition.run (step .linux) (initial []) forkedReadEvents = some final ∧
        final.process .forked = some process ∧ process.PipeUsable .linux := by
  refine ⟨_, _, rfl, rfl, ?_⟩
  exact @pipeUsable_of_inRead .linux [] forkedReadEvents _ rfl .forked _ rfl
    ⟨by decide, _, rfl, rfl⟩

/-! ## Leaving the scope after `Wait` -/

/--
The host is not in `std::terminate`, and it destroys the thread object only after the
reader has finished and the object is not joinable any more.
-/
structure CleanShutdown (system : System) : Prop where
  notTerminating : system.host.main ≠ .terminating ∧ system.host.main ≠ .dead
  threadDone : ∀ exit frame, system.host.main = .unwind exit →
    system.host.frame = .pipeReader :: frame →
      (∃ thread, system.host.pipeReader = .alive thread ∧ thread.joinable = false) ∧
        ∃ reader, system.host.reader = some reader ∧ reader.pc = .finished

end System

namespace Process

variable {platform : Platform} {process next : Process}

/-- The main thread is about to destroy the thread object, or has tried to. -/
def PastReturn (process : Process) : Prop :=
  match process.main with
  | .unwind _ => .pipeReader ∈ process.frame
  | .terminating | .dead => True
  | _ => False

/-- `Process.Wait()` has returned. -/
def Returning (process : Process) : Prop :=
  process.main = .return0 ∨ process.PastReturn

/-- Past the return the process is terminating, dead, or about to destroy a joinable thread. -/
theorem WellFormed.pastReturn_cases (wellFormed : process.WellFormed platform)
    (pastReturn : process.PastReturn) :
    process.main = .terminating ∨ process.main = .dead ∨
      ∃ exit, process.main = .unwind exit ∧
        process.frame = [.pipeReader, .process, .pipe] ∧ process.Relaying platform := by
  simp only [PastReturn] at pastReturn
  cases pcEq : process.main with
  | unwind exit =>
      simp only [pcEq] at pastReturn
      simp only [WellFormed, pcEq] at wellFormed
      rcases wellFormed with ⟨frameEq, relaying⟩ | ⟨noThread, _⟩
      · exact Or.inr (Or.inr ⟨exit, rfl, frameEq, relaying⟩)
      · exact absurd pastReturn noThread
  | terminating => exact Or.inl rfl
  | dead => exact Or.inr (Or.inl rfl)
  | _ => simp [pcEq] at pastReturn

/-- The main thread gets past the return by executing `return 0` after `Wait`, and stays. -/
theorem MainStep.pastReturn_iff {call : MainCall} (step : MainStep platform process call next)
    (wellFormed : process.WellFormed platform) :
    next.PastReturn ↔ process.PastReturn ∨ call = .return0 := by
  cases step with
  | pipeFailed pipe atPc alive failed =>
      simp only [WellFormed, atPc] at wellFormed
      simp [PastReturn, atPc, wellFormed.1]
  | threadThrew atPc =>
      simp only [WellFormed, atPc] at wellFormed
      simp [PastReturn, atPc, wellFormed.1]
  | return0 atPc =>
      simp only [WellFormed, atPc] at wellFormed
      simp [PastReturn, atPc, wellFormed.1]
  | destroyThread exit frame thread atPc frameEq alive notJoinable =>
      simp only [WellFormed, atPc] at wellFormed
      rcases wellFormed with ⟨_, relaying⟩ | ⟨noThread, _⟩
      · rw [relaying.2.1, Lifetime.alive.injEq] at alive
        subst thread
        simp at notJoinable
      · exact absurd (by simp [frameEq]) noThread
  | destroyJoinable exit frame thread atPc frameEq alive joinable =>
      simp [PastReturn, atPc, frameEq]
  | destroyProcess exit frame launched atPc frameEq alive => simp [PastReturn, atPc, frameEq]
  | destroyPipe exit frame pipe atPc frameEq alive => simp [PastReturn, atPc, frameEq]
  | leave exit atPc frameEq => simp [PastReturn, atPc, frameEq]
  | openPipe result atPc answer => simp [PastReturn, atPc]
  | pipeOpened pipe atPc alive opened => simp [PastReturn, atPc]
  | fork pid atPc onLinux answer => simp [PastReturn, atPc]
  | createProcess created atPc onWindows answer => simp [PastReturn, atPc]
  | execReplaced atPc => simp [PastReturn, atPc]
  | execReturned atPc => simp [PastReturn, atPc]
  | storePid pid atPc => simp [PastReturn, atPc]
  | threadStarted buffer atPc => simp [PastReturn, atPc]
  | wait launched answer children atPc alive returns => simp [PastReturn, atPc]
  | die atPc => simp [PastReturn, atPc]

theorem MainStep.return0_iff {call : MainCall} (step : MainStep platform process call next) :
    next.main = .return0 ↔ ∃ answer, call = .wait answer := by
  cases step with
  | wait launched answer children atPc alive returns => exact iff_of_true rfl ⟨answer, rfl⟩
  | _ => simp_all

/-- The main thread executes `return 0` only behind `Wait`, and has no other way on from there. -/
theorem MainStep.returning_iff {call : MainCall} (step : MainStep platform process call next)
    (wellFormed : process.WellFormed platform) :
    next.Returning ↔ process.Returning ∨ ∃ answer, call = .wait answer := by
  rw [Returning, Returning, step.return0_iff, step.pastReturn_iff wellFormed]
  have onlyReturn : process.main = .return0 ↔ call = .return0 := by
    cases step <;> simp_all
  rw [onlyReturn]
  tauto

end Process

namespace System

variable {platform : Platform} {system next : System}

/-- A property of the host which its children and its reader have no part in. -/
theorem Step.host_iff {event : Event} (step : Step platform system event next)
    {P : Process → Prop} {Cond : MainCall → Prop}
    (mainStep : ∀ call process, Process.MainStep platform system.host call process →
      (P process ↔ P system.host ∨ Cond call))
    (frame : ∀ process reader children,
      P { process with reader := reader, children := children } ↔ P process) :
    P next.host ↔ P system.host ∨ ∃ call, event = .main .host call ∧ Cond call := by
  rcases step.host_cases with ⟨call, process, rfl, hostStep, hostEq⟩ | ⟨notMain, unchanged⟩
  · rw [hostEq, mainStep call process hostStep]
    simp
  · rcases unchanged with ⟨reader, children, hostEq⟩
    rw [hostEq, frame]
    simp [notMain]

theorem Step.pastReturn_iff {event : Event} (step : Step platform system event next)
    (wellFormed : system.WellFormed platform) :
    next.host.PastReturn ↔ system.host.PastReturn ∨ event = .main .host .return0 := by
  rw [step.host_iff (fun call process hostStep => hostStep.pastReturn_iff wellFormed.1)
    (fun _ _ _ => Iff.rfl)]
  simp

/-- `Process.Wait()` of the host returned, whatever it found. -/
def Event.WaitReturned : Event → Prop
  | .main .host (.wait _) => True
  | _ => False

theorem Step.returning_iff {event : Event} (step : Step platform system event next)
    (wellFormed : system.WellFormed platform) :
    next.host.Returning ↔ system.host.Returning ∨ event.WaitReturned := by
  rw [step.host_iff (fun call process hostStep => hostStep.returning_iff wellFormed.1)
    (fun _ _ _ => Iff.rfl)]
  apply or_congr_right
  constructor
  · rintro ⟨_, rfl, answer, rfl⟩
    trivial
  · intro waited
    simp only [Event.WaitReturned] at waited
    split at waited
    · exact ⟨_, rfl, _, rfl⟩
    · exact waited.elim

/-- The reader is never done, so the shutdown is clean only before the return. -/
theorem WellFormed.cleanShutdown_iff (wellFormed : system.WellFormed platform) :
    system.CleanShutdown ↔ ¬system.host.PastReturn := by
  constructor
  · intro clean pastReturn
    rcases wellFormed.1.pastReturn_cases pastReturn with terminating | dead | destroying
    · exact clean.notTerminating.1 terminating
    · exact clean.notTerminating.2 dead
    · rcases destroying with ⟨exit, atPc, frameEq, _, _, reader, hasReader, looping⟩
      rcases (clean.threadDone exit _ atPc frameEq).2 with ⟨same, sameEq, finished⟩
      obtain rfl : reader = same := Option.some.inj (hasReader.symm.trans sameEq)
      exact looping.2 finished
  · intro notPast
    refine ⟨⟨?_, ?_⟩, ?_⟩
    · intro terminating
      exact notPast (by simp [Process.PastReturn, terminating])
    · intro dead
      exact notPast (by simp [Process.PastReturn, dead])
    · intro exit frame atPc frameEq
      exact absurd (by simp [Process.PastReturn, atPc, frameEq]) notPast

theorem cleanShutdown_iff_no_return0 {others : List Child} {events : List Event}
    {final : System}
    (runs : Transition.run (step platform) (initial others) events = some final) :
    Transition.EveryState (step platform) CleanShutdown (initial others) events ↔
      ∀ event ∈ events, event ≠ .main .host .return0 := by
  rw [← Transition.everyStep_event_iff runs]
  refine Transition.everyState_iff_everyStep (WellFormed platform)
    (fun _ _ _ wellFormed stepEq => (step_sound stepEq).wellFormed wellFormed) ?_
    (wellFormed_entering [] others) ?_ runs
  · intro system event next wellFormed clean stepEq
    have step := step_sound stepEq
    rw [(step.wellFormed wellFormed).cleanShutdown_iff, step.pastReturn_iff wellFormed]
    rw [wellFormed.cleanShutdown_iff] at clean
    simp [clean]
  · have startWellFormed : (entering [] others).WellFormed platform :=
      wellFormed_entering [] others
    rw [startWellFormed.cleanShutdown_iff]
    simp [entering, Process.entering, Process.PastReturn]

theorem pastReturn_iff_of_run {others : List Child} {events : List Event} {final : System}
    (runs : Transition.run (step platform) (initial others) events = some final) :
    final.host.PastReturn ↔ ∃ event ∈ events, event = .main .host .return0 := by
  refine Transition.iff_event_of_run (WellFormed platform) (fun system => system.host.PastReturn)
    (fun event => event = .main .host .return0)
    (fun _ _ _ wellFormed stepEq => (step_sound stepEq).wellFormed wellFormed) ?_
    (wellFormed_entering [] others) ?_ runs
  · intro system event next wellFormed stepEq
    exact (step_sound stepEq).pastReturn_iff wellFormed
  · simp [entering, Process.entering, Process.PastReturn]

theorem returning_iff_of_run {others : List Child} {events : List Event} {final : System}
    (runs : Transition.run (step platform) (initial others) events = some final) :
    final.host.Returning ↔ ∃ event ∈ events, event.WaitReturned := by
  refine Transition.iff_event_of_run (WellFormed platform) (fun system => system.host.Returning)
    Event.WaitReturned
    (fun _ _ _ wellFormed stepEq => (step_sound stepEq).wellFormed wellFormed) ?_
    (wellFormed_entering [] others) ?_ runs
  · intro system event next wellFormed stepEq
    exact (step_sound stepEq).returning_iff wellFormed
  · simp [entering, Process.entering, Process.Returning, Process.PastReturn]

/-- The main thread executes `return 0` or destroys a local. -/
def Event.LeavesScope : Event → Prop
  | .main .host .return0 | .main .host .destroy => True
  | _ => False

theorem Event.not_waitReturned_of_leavesScope {event : Event} (leaves : event.LeavesScope) :
    ¬event.WaitReturned := by
  simp only [LeavesScope] at leaves
  split at leaves
  · exact id
  · exact id
  · exact leaves.elim

theorem cleanShutdown_of_wait_pending {others : List Child} {events : List Event}
    {final : System}
    (runs : Transition.run (step platform) (initial others) events = some final)
    (pending : ∀ event ∈ events, ¬event.WaitReturned) :
    Transition.EveryState (step platform) CleanShutdown (initial others) events := by
  rw [cleanShutdown_iff_no_return0 runs]
  intro event event_mem isReturn
  have past : final.host.PastReturn :=
    (pastReturn_iff_of_run runs).mpr ⟨event, event_mem, isReturn⟩
  rcases (returning_iff_of_run runs).mp (Or.inr past) with ⟨waited, waited_mem, returned⟩
  exact pending waited waited_mem returned

/-- Once `Wait` has returned, leaving the scope is not clean. -/
theorem not_clean_of_returning {others : List Child} {events : List Event} {final : System}
    (runs : Transition.run (step platform) (initial others) events = some final)
    (returning : final.host.Returning) :
    ∃ leaving last, (∀ event ∈ leaving, event.LeavesScope) ∧
      Transition.run (step platform) (initial others) (events ++ leaving) = some last ∧
        ¬Transition.EveryState (step platform) CleanShutdown (initial others)
          (events ++ leaving) := by
  rcases returning with atReturn | past
  · have stepEq : final.step platform (.main .host .return0) =
        some { final with host := { final.host with main := .unwind (.returned 0) } } := by
      simp [step, Process.mainStep, atReturn, afterHost]
    have allRuns := Transition.run_concat_iff.mpr ⟨final, runs, stepEq⟩
    refine ⟨_, _, ?_, allRuns, ?_⟩
    · simp [Event.LeavesScope]
    · rw [cleanShutdown_iff_no_return0 allRuns]
      simp
  · refine ⟨[], final, by simp, by simpa using runs, ?_⟩
    rw [List.append_nil, cleanShutdown_iff_no_return0 runs]
    rcases (pastReturn_iff_of_run runs).mp past with ⟨event, event_mem, isReturn⟩
    exact fun noReturn => noReturn event event_mem isReturn

/--
A run and all ways in which its main thread leaves the scope from there are clean exactly
if `Process.Wait()` has not returned, and no run returns 0 to the caller.
-/
theorem cleanShutdown_iff_wait_pending {others : List Child} {events : List Event}
    {final : System}
    (runs : Transition.run (step platform) (initial others) events = some final) :
    ((∀ leaving last, (∀ event ∈ leaving, event.LeavesScope) →
          Transition.run (step platform) (initial others) (events ++ leaving) = some last →
            Transition.EveryState (step platform) CleanShutdown (initial others)
              (events ++ leaving)) ↔
        ∀ event ∈ events, ¬event.WaitReturned) ∧
      final.host.main ≠ .left (.returned 0) := by
  refine ⟨⟨?_, ?_⟩, ?_⟩
  · intro clean event event_mem returned
    have returning := (returning_iff_of_run runs).mpr ⟨event, event_mem, returned⟩
    rcases not_clean_of_returning runs returning with ⟨leaving, last, leaves, allRuns, notClean⟩
    exact notClean (clean leaving last leaves allRuns)
  · intro pending leaving last leaves allRuns
    apply cleanShutdown_of_wait_pending allRuns
    intro event event_mem
    rcases List.mem_append.mp event_mem with before | after
    · exact pending event before
    · exact Event.not_waitReturned_of_leavesScope (leaves event after)
  · intro returned
    have wellFormed := (wellFormed_of_run runs).1
    simp only [Process.WellFormed, returned] at wellFormed
    exact wellFormed.2 rfl

/-- A whole run on Linux: the program exits while the reader holds a chunk. -/
def abortingEvents : List Event :=
  [.main .host (.openPipe 3), .main .host .checkPipe, .main .host (.fork 100),
    .main .forked (.execlp true), .main .host .storePid,
    .main .host (.startThread (some Buffer.zero)), .write [0x71#8, 0x0a#8],
    .reader .host .test, .reader .host (.read (.data [0x71#8, 0x0a#8])),
    .reader .host (.inject (.ioctl 0)), .programExit, .main .host (.wait (.reaped 100)),
    .main .host .return0, .main .host .destroy]

theorem cleanShutdown_iff_wait_pending_aborting :
    ∃ final, Transition.run (step .linux) (initial []) abortingEvents = some final ∧
      ((∀ leaving last, (∀ event ∈ leaving, event.LeavesScope) →
          Transition.run (step .linux) (initial []) (abortingEvents ++ leaving) = some last →
            Transition.EveryState (step .linux) CleanShutdown (initial [])
              (abortingEvents ++ leaving)) ↔
        ∀ event ∈ abortingEvents, ¬event.WaitReturned) ∧
      final.host.main ≠ .left (.returned 0) :=
  ⟨_, rfl, cleanShutdown_iff_wait_pending rfl⟩

/-- The pipe opened, the program exited, and the host is in `std::terminate`. -/
theorem terminating_after_program_exit :
    ∃ final, Transition.run (step .linux) (initial []) abortingEvents = some final ∧
      final.program = .exited ∧ final.host.main = .terminating ∧ ¬final.CleanShutdown := by
  refine ⟨_, rfl, rfl, rfl, ?_⟩
  intro clean
  exact clean.notTerminating.1 rfl

end System

end MiddleMan
