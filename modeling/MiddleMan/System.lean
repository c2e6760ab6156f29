import MiddleMan.StartMiddleMan
import MiddleMan.Relay

/-!
# The system around one call of `StartMiddleMan`

The parties are the process which calls `StartMiddleMan` (the host) with its main and
reader threads, the process made by `fork` on Linux with the same two threads, the
requested program, the other children of the host, the writers of the pipe and the user.
Any interleaving of their steps is a run of `System.step`.
-/

namespace MiddleMan

/-- The two processes which can execute `StartMiddleMan`. -/
inductive Who where
  | host
  | forked
deriving DecidableEq, Repr

/-- What has become of the program the relay launches. -/
inductive ProgramStatus where
  | notStarted
  | running
  | exited
deriving DecidableEq, Repr

/-- The host, a copy of it which `fork` may have made, the program, and what they share. -/
structure System where
  channel : Channel
  host : Process
  forked : Option Process
  program : ProgramStatus
  /-- The name under which the host knows the child: its pid, or its process handle. -/
  programPid : Option ℤ
  /-- The children which `Process.Wait()` of the host released. -/
  reaped : List ℤ
deriving DecidableEq

namespace System

/-- What somebody does: the writer, the user, one of the threads, or a child. -/
inductive Event where
  | write (bytes : List Byte)
  | keystroke (key : Byte)
  | main (who : Who) (call : MainCall)
  | reader (who : Who) (call : ReaderCall)
  | programExit
  /-- Another child of the host terminates. -/
  | childExit (pid : ℤ)
  /-- Other code of the host waits for a terminated child, on Linux. -/
  | childReaped (pid : ℤ)
deriving DecidableEq

/-- Before the call; the host may have any descriptors and any children. -/
def entering (base : HandleTable) (others : List Child) : System :=
  { channel := Channel.initial
    host := Process.entering base others
    forked := none
    program := .notStarted
    programPid := none
    reaped := [] }

/-- Before the call, if the host has nothing open yet. -/
def initial (others : List Child) : System :=
  entering [] others

/-- One of the two processes, if it is there. -/
def process (system : System) : Who → Option Process
  | .host => some system.host
  | .forked => system.forked

/-- The system in which that process has changed. -/
def setProcess (system : System) (process : Process) : Who → System
  | .host => { system with host := process }
  | .forked => { system with forked := some process }

/-- The child the host knows as `programPid` has terminated. -/
def reportExit (system : System) : System :=
  match system.programPid with
  | some pid =>
      { system with
        host := { system.host with children := exitChild pid system.host.children } }
  | none => system

/-- What a step of the host's main thread means for the others; `next` is the host after it. -/
def afterHost (system : System) (next : Process) : MainCall → System
  | .fork pid =>
      if 0 < pid then
        { system with
          host := next
          forked := some system.host.forkedCopy
          programPid := some pid }
      else { system with host := next }
  | .createProcess (some (hProcess, _)) =>
      { system with host := next, program := .running, programPid := some hProcess }
  | .wait (.reaped pid) => { system with host := next, reaped := system.reaped ++ [pid] }
  | _ => { system with host := next }

/--
The same for the forked copy.  The caller into which it comes back, by an exception of
`std::thread`, is not followed further.
-/
def afterForked (system : System) (next : Process) : MainCall → System
  | .execlp true => { system with forked := some next, program := .running }
  -- the child dies without having become the program; the kernel reports it all the same
  | .die => { system with forked := some next }.reportExit
  | _ => { system with forked := some next }

/-- A step of the reader thread of one process. -/
def stepReader (platform : Platform) (system : System) (who : Who) (call : ReaderCall) :
    Option System :=
  match system.process who with
  | none => none
  | some process =>
      if process.Running then
        match process.reader with
        | none => none
        | some reader =>
            (reader.step platform system.channel call).map fun (channel, next) =>
              { system with channel := channel }.setProcess { process with reader := some next } who
      else none

/-- One event, if it can happen in this state. -/
def step (platform : Platform) (system : System) : Event → Option System
  | .write bytes => some { system with channel := system.channel.write bytes }
  | .keystroke key => some { system with channel := system.channel.type key }
  | .main .host call =>
      (system.host.mainStep platform call).map fun next => system.afterHost next call
  | .main .forked call =>
      match system.forked with
      | none => none
      | some process =>
          (process.mainStep platform call).map fun next => system.afterForked next call
  | .reader who call => system.stepReader platform who call
  | .programExit =>
      if system.program = .running then some { system with program := .exited }.reportExit
      else none
  | .childExit pid =>
      if some pid ≠ system.programPid then
        some
          { system with
            host := { system.host with children := exitChild pid system.host.children } }
      else none
  | .childReaped pid =>
      -- on Windows the handle of a created process stays signaled until it is closed
      if platform = .linux ∧
          ∃ child ∈ system.host.children, child.pid = pid ∧ child.exited = true then
        some
          { system with
            host := { system.host with children := removeChild pid system.host.children } }
      else none

/-- The steps with the system they lead to. -/
inductive Step (platform : Platform) (system : System) : Event → System → Prop where
  | write (bytes : List Byte) :
      Step platform system (.write bytes) { system with channel := system.channel.write bytes }
  | keystroke (key : Byte) :
      Step platform system (.keystroke key) { system with channel := system.channel.type key }
  | hostMain (call : MainCall) (next : Process)
      (mainStep : Process.MainStep platform system.host call next) :
      Step platform system (.main .host call) (system.afterHost next call)
  | forkedMain (call : MainCall) (process next : Process) (present : system.forked = some process)
      (mainStep : Process.MainStep platform process call next) :
      Step platform system (.main .forked call) (system.afterForked next call)
  | reader (who : Who) (call : ReaderCall) (process : Process) (reader next : Reader)
      (channel : Channel) (present : system.process who = some process)
      (running : process.Running) (hasReader : process.reader = some reader)
      (readerStep : reader.step platform system.channel call = some (channel, next)) :
      Step platform system (.reader who call)
        ({ system with channel := channel }.setProcess { process with reader := some next } who)
  | programExit (running : system.program = .running) :
      Step platform system .programExit { system with program := .exited }.reportExit
  | childExit (pid : ℤ) (other : some pid ≠ system.programPid) :
      Step platform system (.childExit pid)
        { system with host := { system.host with children := exitChild pid system.host.children } }
  | childReaped (pid : ℤ) (onLinux : platform = .linux)
      (exited : ∃ child ∈ system.host.children, child.pid = pid ∧ child.exited = true) :
      Step platform system (.childReaped pid)
        { system with
          host := { system.host with children := removeChild pid system.host.children } }

theorem step_sound {platform : Platform} {system next : System} {event : Event}
    (stepEq : system.step platform event = some next) : Step platform system event next := by
  cases event with
  | write bytes =>
      simp only [step, Option.some.injEq] at stepEq
      subst next
      exact .write bytes
  | keystroke key =>
      simp only [step, Option.some.injEq] at stepEq
      subst next
      exact .keystroke key
  | main who call =>
      cases who with
      | host =>
          simp only [step, Option.map_eq_some_iff] at stepEq
          rcases stepEq with ⟨process, mainStep, rfl⟩
          exact .hostMain call process (Process.mainStep_sound mainStep)
      | forked =>
          simp only [step] at stepEq
          split at stepEq
          · simp at stepEq
          · rename_i process present
            simp only [Option.map_eq_some_iff] at stepEq
            rcases stepEq with ⟨processNext, mainStep, rfl⟩
            exact .forkedMain call process processNext present (Process.mainStep_sound mainStep)
  | reader who call =>
      simp only [step, stepReader] at stepEq
      split at stepEq
      · simp at stepEq
      · rename_i process present
        split at stepEq
        · rename_i running
          split at stepEq
          · simp at stepEq
          · rename_i reader hasReader
            simp only [Option.map_eq_some_iff] at stepEq
            rcases stepEq with ⟨⟨channel, readerNext⟩, readerStep, rfl⟩
            exact .reader who call process reader readerNext channel present running hasReader
              readerStep
        · simp at stepEq
  | programExit =>
      simp only [step] at stepEq
      split at stepEq
      · rename_i running
        simp only [Option.some.injEq] at stepEq
        subst next
        exact .programExit running
      · simp at stepEq
  | childExit pid =>
      simp only [step] at stepEq
      split at stepEq
      · rename_i other
        simp only [Option.some.injEq] at stepEq
        subst next
        exact .childExit pid other
      · simp at stepEq
  | childReaped pid =>
      simp only [step] at stepEq
      split at stepEq
      · rename_i possible
        simp only [Option.some.injEq] at stepEq
        subst next
        exact .childReaped pid possible.1 possible.2
      · simp at stepEq

/-! ## What the administrative operations leave alone -/

section Frame

variable (system : System) (next : Process) (call : MainCall)

@[simp]
theorem reportExit_channel : system.reportExit.channel = system.channel := by
  simp only [reportExit]
  split <;> rfl

@[simp]
theorem reportExit_forked : system.reportExit.forked = system.forked := by
  simp only [reportExit]
  split <;> rfl

@[simp]
theorem reportExit_program : system.reportExit.program = system.program := by
  simp only [reportExit]
  split <;> rfl

/-- An exit is only seen in the list of children. -/
theorem reportExit_host :
    ∃ children, system.reportExit.host = { system.host with children := children } := by
  simp only [reportExit]
  split
  · exact ⟨_, rfl⟩
  · exact ⟨system.host.children, rfl⟩

@[simp]
theorem afterHost_channel : (system.afterHost next call).channel = system.channel := by
  simp only [afterHost]
  split <;> try split
  all_goals rfl

@[simp]
theorem afterHost_host : (system.afterHost next call).host = next := by
  simp only [afterHost]
  split <;> try split
  all_goals rfl

@[simp]
theorem afterForked_channel : (system.afterForked next call).channel = system.channel := by
  simp only [afterForked]
  split <;> simp

@[simp]
theorem afterForked_forked : (system.afterForked next call).forked = some next := by
  simp only [afterForked]
  split <;> simp

theorem afterForked_host :
    ∃ children,
      (system.afterForked next call).host = { system.host with children := children } := by
  simp only [afterForked]
  split
  · exact ⟨system.host.children, rfl⟩
  · exact reportExit_host _
  · exact ⟨system.host.children, rfl⟩

end Frame

/-- What the other parties do to the host concerns its reader and its children only. -/
theorem Step.host_cases {platform : Platform} {system next : System} {event : Event}
    (step : Step platform system event next) :
    (∃ call process, event = .main .host call ∧
        Process.MainStep platform system.host call process ∧ next.host = process) ∨
      (∀ call, event ≠ .main .host call) ∧ ∃ reader children,
        next.host = { system.host with reader := reader, children := children } := by
  cases step with
  | hostMain call process mainStep =>
      exact Or.inl ⟨call, process, rfl, mainStep, afterHost_host _ _ _⟩
  | forkedMain call process processNext present mainStep =>
      rcases system.afterForked_host processNext call with ⟨children, hostEq⟩
      exact Or.inr ⟨by simp, system.host.reader, children, hostEq⟩
  | reader who call process reader readerNext channel present running hasReader readerStep =>
      refine Or.inr ⟨by simp, ?_⟩
      cases who with
      | host =>
          simp only [System.process, Option.some.injEq] at present
          subst process
          exact ⟨some readerNext, system.host.children, rfl⟩
      | forked => exact ⟨system.host.reader, system.host.children, rfl⟩
  | programExit running =>
      rcases reportExit_host { system with program := .exited } with ⟨children, hostEq⟩
      exact Or.inr ⟨by simp, system.host.reader, children, hostEq⟩
  | write bytes => exact Or.inr ⟨by simp, system.host.reader, system.host.children, rfl⟩
  | keystroke key => exact Or.inr ⟨by simp, system.host.reader, system.host.children, rfl⟩
  | childExit pid other => exact Or.inr ⟨by simp, system.host.reader, _, rfl⟩
  | childReaped pid onLinux exited => exact Or.inr ⟨by simp, system.host.reader, _, rfl⟩

/-- Every step keeps the books of the channel right. -/
theorem Step.consistent {platform : Platform} {system next : System} {event : Event}
    (step : Step platform system event next)
    (consistent : system.channel.Consistent platform) : next.channel.Consistent platform := by
  cases step with
  | write bytes => exact consistent.write bytes
  | keystroke key => exact consistent.type key
  | hostMain call process mainStep => rwa [afterHost_channel]
  | forkedMain call process processNext present mainStep => rwa [afterForked_channel]
  | reader who call process reader readerNext channel present running hasReader readerStep =>
      have channelConsistent := (Reader.step_sound readerStep).consistent consistent
      cases who <;> exact channelConsistent
  | programExit running => rwa [reportExit_channel]
  | childExit pid other => exact consistent
  | childReaped pid onLinux exited => exact consistent

theorem consistent_of_run {platform : Platform} {base : HandleTable} {others : List Child}
    {events : List Event} {final : System}
    (runs : Transition.run (step platform) (entering base others) events = some final) :
    final.channel.Consistent platform :=
  Transition.history_invariant (fun _ system => system.channel.Consistent platform)
    Channel.consistent_initial
    (fun _ _ _ _ consistent stepEq => (step_sound stepEq).consistent consistent) runs

/-! ## Properties of a single process -/

section Both

variable {platform : Platform} {system next : System} {Inv : Process → Prop}

theorem afterHost_forked (system : System) (process : Process) (call : MainCall) :
    (system.afterHost process call).forked = system.forked ∨
      ∃ pid, call = .fork pid ∧ 0 < pid ∧
        (system.afterHost process call).forked = some system.host.forkedCopy := by
  simp only [afterHost]
  split
  · split
    · rename_i pid positive
      exact Or.inr ⟨pid, rfl, positive, rfl⟩
    · exact Or.inl rfl
  all_goals exact Or.inl rfl

/-- The host and the forked copy, where there is one, have a property. -/
def Both (Inv : Process → Prop) (system : System) : Prop :=
  Inv system.host ∧ ∀ process, system.forked = some process → Inv process

/--
A property of a process is an invariant if the steps of its two threads keep it, the copy
made by `fork` inherits it, and it does not depend on the children.
-/
structure ProcessInvariant (platform : Platform) (Inv : Process → Prop) : Prop where
  mainStep : ∀ process call next, Inv process →
    Process.MainStep platform process call next → Inv next
  forkedCopy : ∀ process, Inv process → platform = .linux → process.main = .launch →
    Inv process.forkedCopy
  withChildren : ∀ process children, Inv process → Inv { process with children := children }
  withReader : ∀ process reader next channel channelNext call, Inv process → process.Running →
    process.reader = some reader →
      Reader.step platform channel reader call = some (channelNext, next) →
        Inv { process with reader := some next }

theorem Step.both {event : Event} (step : Step platform system event next)
    (invariant : ProcessInvariant platform Inv) (both : system.Both Inv) : next.Both Inv := by
  rcases both with ⟨hostInv, forkedInv⟩
  cases step with
  | write bytes => exact ⟨hostInv, forkedInv⟩
  | keystroke key => exact ⟨hostInv, forkedInv⟩
  | hostMain call process mainStep =>
      refine ⟨by simpa using invariant.mainStep _ _ _ hostInv mainStep, ?_⟩
      intro forked forkedEq
      rcases system.afterHost_forked process call with unchanged | made
      · rw [unchanged] at forkedEq
        exact forkedInv forked forkedEq
      · rcases made with ⟨pid, rfl, _, copied⟩
        simp only [copied, Option.some.injEq] at forkedEq
        subst forked
        cases mainStep with
        | fork pid atPc onLinux answer => exact invariant.forkedCopy _ hostInv onLinux atPc
  | forkedMain call process processNext present mainStep =>
      constructor
      · rcases system.afterForked_host processNext call with ⟨children, hostEq⟩
        rw [hostEq]
        exact invariant.withChildren _ children hostInv
      · intro forked forkedEq
        simp only [afterForked_forked, Option.some.injEq] at forkedEq
        subst forked
        exact invariant.mainStep _ _ _ (forkedInv process present) mainStep
  | reader who call process reader readerNext channel present running hasReader readerStep =>
      cases who with
      | host =>
          simp only [System.process, Option.some.injEq] at present
          subst process
          exact ⟨invariant.withReader _ _ _ _ _ _ hostInv running hasReader readerStep,
            forkedInv⟩
      | forked =>
          refine ⟨hostInv, ?_⟩
          intro forked forkedEq
          simp only [setProcess, Option.some.injEq] at forkedEq
          subst forked
          exact invariant.withReader _ _ _ _ _ _ (forkedInv process present) running hasReader
            readerStep
  | programExit running =>
      rcases reportExit_host { system with program := .exited } with ⟨children, hostEq⟩
      refine ⟨?_, by simpa using forkedInv⟩
      rw [hostEq]
      exact invariant.withChildren _ children hostInv
  | childExit pid other => exact ⟨invariant.withChildren _ _ hostInv, forkedInv⟩
  | childReaped pid onLinux exited => exact ⟨invariant.withChildren _ _ hostInv, forkedInv⟩

/-- An invariant which holds at the call holds of both processes in every reachable state. -/
theorem both_of_run (invariant : ProcessInvariant platform Inv) {others : List Child}
    {base : HandleTable} (atStart : Inv (Process.entering base others)) {events : List Event}
    {final : System}
    (runs : Transition.run (step platform) (entering base others) events = some final) :
    final.Both Inv :=
  Transition.invariant ⟨atStart, by simp [entering]⟩
    (fun _ _ _ both stepEq => (step_sound stepEq).both invariant both) runs

end Both

end System

end MiddleMan
