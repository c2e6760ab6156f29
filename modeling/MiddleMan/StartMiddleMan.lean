import MiddleMan.PipeReader
import MiddleMan.GeneralProcess

/-!
# The main thread of `StartMiddleMan`

`Process` is a process executing `StartMiddleMan`: the program counter of its main
thread, the local objects, the reader thread if it runs, and the process' descriptors and
children.  After `fork` there are two such processes, the second a copy of the first; the
constructor of `GeneralProcess` is therefore split at the points where the copies differ.

Leaving the scope destroys the locals in reverse order of their declaration.  Destroying
a joinable `std::thread` calls `std::terminate`, which neither returns nor unwinds.

The messages printed on the way are not part of the state.
-/

namespace MiddleMan

/-- A local variable before its constructor, between constructor and destructor, and after. -/
inductive Lifetime (α : Type) where
  | unborn
  | alive (object : α)
  | destroyed
deriving DecidableEq, Repr

/-- An object of the class `std::thread`. -/
structure StdThread where
  joinable : Bool
deriving DecidableEq, Repr

/-- The locals of `StartMiddleMan` which have destructors. -/
inductive LocalVariable where
  | pipe
  | process
  | pipeReader
deriving DecidableEq, Repr

/-- How `StartMiddleMan` is left: by a `return`, or by an exception. -/
inductive Exit where
  | returned (code : ℤ)
  | threw
deriving DecidableEq, Repr

/-- Where the thread that called `StartMiddleMan` is. -/
inductive MainPc where
  /-- Before `GeneralPipe Pipe(PipeName)`. -/
  | constructPipe
  /-- At `if (!Pipe.IsSuccessfullyConstructed())`. -/
  | checkPipe
  /-- At `fork` or `CreateProcessA` in the constructor of `Process`. -/
  | launch
  | execlp
  | storePid (pid : ℤ)
  | startThread
  | wait
  | return0
  | unwind (exit : Exit)
  | left (exit : Exit)
  | terminating
  | dead
  /-- `execlp` has replaced the image: the process runs the requested program. -/
  | replaced
deriving DecidableEq, Repr

/-- A step of that thread, with the answer of the operating system. -/
inductive MainCall where
  | openPipe (result : ℤ)
  | checkPipe
  | fork (pid : ℤ)
  | createProcess (created : Option (ℤ × ℤ))
  | execlp (replaced : Bool)
  | storePid
  /-- The thread starts with some buffer contents, or `std::thread` throws. -/
  | startThread (buffer : Option Buffer)
  | wait (answer : WaitReturn)
  | return0
  | destroy
  | die
deriving DecidableEq

/-- A process in `StartMiddleMan`: its locals, its two threads, and what it has open. -/
structure Process where
  main : MainPc
  /-- The constructed locals, the last declared first. -/
  frame : List LocalVariable
  pipe : Lifetime GeneralPipe
  process : Lifetime GeneralProcess
  /-- `pipeReader`, the object -/
  pipeReader : Lifetime StdThread
  reader : Option Reader
  table : HandleTable
  children : List Child
deriving DecidableEq

namespace Process

/-- A process about to enter `StartMiddleMan`, with descriptors and children of its own. -/
def entering (base : HandleTable) (children : List Child) : Process :=
  { main := .constructPipe
    frame := []
    pipe := .unborn
    process := .unborn
    pipeReader := .unborn
    reader := none
    table := base
    children := children }

/-- A process which has nothing open yet. -/
def initial (children : List Child) : Process :=
  entering [] children

/-- The child made by `fork`: a copy of the process with the forking thread only. -/
def forkedCopy (process : Process) : Process :=
  { process with main := .execlp, reader := none, children := [] }

/-- `fork` or `CreateProcessA`, seen from the parent. -/
def launch (platform : Platform) (process : Process) : MainCall → Option Process
  | .fork pid =>
      if platform = .linux ∧ ForkAnswer process.children pid then
        some
          { process with
            main := .storePid pid
            children := adoptForked pid process.children }
      else none
  | .createProcess created =>
      if platform = .windows ∧ CreateProcessAnswer process.table process.children created then
        some
          { process with
            main := .startThread
            frame := .process :: process.frame
            process := .alive (GeneralProcess.constructWindows created)
            table := GeneralProcess.resources created ++ process.table
            children := adoptCreated created process.children }
      else none
  | _ => none

/-- The construction of `pipeReader`. -/
def startThread (process : Process) : Option Buffer → Process
  | some buffer =>
      { process with
        main := .wait
        frame := .pipeReader :: process.frame
        pipeReader := .alive { joinable := true }
        reader := some (Reader.start buffer) }
  | none => { process with main := .unwind .threw }

/-- Scope exit destroys the last declared local, or goes back to the caller. -/
def destroy (platform : Platform) (process : Process) (exit : Exit) : Option Process :=
  match process.frame with
  | [] => some { process with main := .left exit }
  | .pipeReader :: frame =>
      match process.pipeReader with
      | .alive thread =>
          -- `~thread()` of a joinable object calls `std::terminate`
          if thread.joinable then some { process with main := .terminating }
          else some { process with frame := frame, pipeReader := .destroyed }
      | .unborn | .destroyed => none
  | .process :: frame =>
      match process.process with
      | .alive launched =>
          some
            { process with
              frame := frame
              process := .destroyed
              table := launched.destruct process.table }
      | .unborn | .destroyed => none
  | .pipe :: frame =>
      match process.pipe with
      | .alive pipe =>
          some
            { process with
              frame := frame
              pipe := .destroyed
              table := pipe.destruct platform process.table }
      | .unborn | .destroyed => none

/-- One step of the main thread, as far as it concerns the process itself. -/
def mainStep (platform : Platform) (process : Process) (call : MainCall) : Option Process :=
  match process.main, call with
  -- how long `open` waits on Linux depends on the other side of the pipe
  | .constructPipe, .openPipe result =>
      if OpenAnswer process.table result then
        some
          { process with
            main := .checkPipe
            frame := .pipe :: process.frame
            pipe := .alive (GeneralPipe.construct platform result)
            table := GeneralPipe.openInto platform result process.table }
      else none
  | .checkPipe, .checkPipe =>
      match process.pipe with
      | .alive pipe =>
          some
            { process with
              main := if !pipe.isSuccessfullyConstructed then .unwind (.returned 1) else .launch }
      | .unborn | .destroyed => none
  | .launch, call => process.launch platform call
  | .execlp, .execlp replaced =>
      -- a returning `execlp` is only reported; the constructor goes on with `pid == 0`
      some { process with main := if replaced then .replaced else .storePid 0 }
  | .storePid pid, .storePid =>
      some
        { process with
          main := .startThread
          frame := .process :: process.frame
          process := .alive (GeneralProcess.constructLinux pid) }
  | .startThread, .startThread buffer => some (process.startThread buffer)
  | .wait, .wait answer =>
      match process.process with
      | .alive launched =>
          (launched.wait platform process.children answer).map fun children =>
            { process with main := .return0, children := children }
      | .unborn | .destroyed => none
  | .return0, .return0 => some { process with main := .unwind (.returned 0) }
  | .unwind exit, .destroy => process.destroy platform exit
  | .terminating, .die => some { process with main := .dead }
  | _, _ => none

/-- The process executes the code of the relay. -/
def Running (process : Process) : Prop :=
  process.main ≠ .dead ∧ process.main ≠ .replaced

instance (process : Process) : Decidable process.Running :=
  inferInstanceAs (Decidable (_ ∧ _))

/-- What its reader thread has in hand. -/
def pending (process : Process) : List Byte :=
  match process.reader with
  | none => []
  | some reader => reader.pending

/-- The steps with the process they lead to. -/
inductive MainStep (platform : Platform) (process : Process) : MainCall → Process → Prop where
  | openPipe (result : ℤ) (atPc : process.main = .constructPipe)
      (answer : OpenAnswer process.table result) :
      MainStep platform process (.openPipe result)
        { process with
          main := .checkPipe
          frame := .pipe :: process.frame
          pipe := .alive (GeneralPipe.construct platform result)
          table := GeneralPipe.openInto platform result process.table }
  | pipeFailed (pipe : GeneralPipe) (atPc : process.main = .checkPipe)
      (alive : process.pipe = .alive pipe) (failed : pipe.successfullyConstructed = false) :
      MainStep platform process .checkPipe { process with main := .unwind (.returned 1) }
  | pipeOpened (pipe : GeneralPipe) (atPc : process.main = .checkPipe)
      (alive : process.pipe = .alive pipe) (opened : pipe.successfullyConstructed = true) :
      MainStep platform process .checkPipe { process with main := .launch }
  | fork (pid : ℤ) (atPc : process.main = .launch) (onLinux : platform = .linux)
      (answer : ForkAnswer process.children pid) :
      MainStep platform process (.fork pid)
        { process with main := .storePid pid, children := adoptForked pid process.children }
  | createProcess (created : Option (ℤ × ℤ)) (atPc : process.main = .launch)
      (onWindows : platform = .windows)
      (answer : CreateProcessAnswer process.table process.children created) :
      MainStep platform process (.createProcess created)
        { process with
          main := .startThread
          frame := .process :: process.frame
          process := .alive (GeneralProcess.constructWindows created)
          table := GeneralProcess.resources created ++ process.table
          children := adoptCreated created process.children }
  | execReplaced (atPc : process.main = .execlp) :
      MainStep platform process (.execlp true) { process with main := .replaced }
  | execReturned (atPc : process.main = .execlp) :
      MainStep platform process (.execlp false) { process with main := .storePid 0 }
  | storePid (pid : ℤ) (atPc : process.main = .storePid pid) :
      MainStep platform process .storePid
        { process with
          main := .startThread
          frame := .process :: process.frame
          process := .alive (GeneralProcess.constructLinux pid) }
  | threadStarted (buffer : Buffer) (atPc : process.main = .startThread) :
      MainStep platform process (.startThread (some buffer))
        { process with
          main := .wait
          frame := .pipeReader :: process.frame
          pipeReader := .alive { joinable := true }
          reader := some (Reader.start buffer) }
  | threadThrew (atPc : process.main = .startThread) :
      MainStep platform process (.startThread none) { process with main := .unwind .threw }
  | wait (launched : GeneralProcess) (answer : WaitReturn) (children : List Child)
      (atPc : process.main = .wait) (alive : process.process = .alive launched)
      (returns : launched.wait platform process.children answer = some children) :
      MainStep platform process (.wait answer)
        { process with main := .return0, children := children }
  | return0 (atPc : process.main = .return0) :
      MainStep platform process .return0 { process with main := .unwind (.returned 0) }
  | destroyJoinable (exit : Exit) (frame : List LocalVariable) (thread : StdThread)
      (atPc : process.main = .unwind exit) (frameEq : process.frame = .pipeReader :: frame)
      (alive : process.pipeReader = .alive thread) (joinable : thread.joinable = true) :
      MainStep platform process .destroy { process with main := .terminating }
  | destroyThread (exit : Exit) (frame : List LocalVariable) (thread : StdThread)
      (atPc : process.main = .unwind exit) (frameEq : process.frame = .pipeReader :: frame)
      (alive : process.pipeReader = .alive thread) (notJoinable : thread.joinable = false) :
      MainStep platform process .destroy
        { process with frame := frame, pipeReader := .destroyed }
  | destroyProcess (exit : Exit) (frame : List LocalVariable) (launched : GeneralProcess)
      (atPc : process.main = .unwind exit) (frameEq : process.frame = .process :: frame)
      (alive : process.process = .alive launched) :
      MainStep platform process .destroy
        { process with
          frame := frame
          process := .destroyed
          table := launched.destruct process.table }
  | destroyPipe (exit : Exit) (frame : List LocalVariable) (pipe : GeneralPipe)
      (atPc : process.main = .unwind exit) (frameEq : process.frame = .pipe :: frame)
      (alive : process.pipe = .alive pipe) :
      MainStep platform process .destroy
        { process with
          frame := frame
          pipe := .destroyed
          table := pipe.destruct platform process.table }
  | leave (exit : Exit) (atPc : process.main = .unwind exit) (frameEq : process.frame = []) :
      MainStep platform process .destroy { process with main := .left exit }
  | die (atPc : process.main = .terminating) :
      MainStep platform process .die { process with main := .dead }

section Sound

variable {platform : Platform} {process next : Process}

theorem launch_sound {call : MainCall} (atPc : process.main = .launch)
    (stepEq : process.launch platform call = some next) :
    MainStep platform process call next := by
  cases call with
  | fork pid =>
      simp only [launch] at stepEq
      split at stepEq
      · rename_i possible
        simp only [Option.some.injEq] at stepEq
        subst next
        exact .fork pid atPc possible.1 possible.2
      · simp at stepEq
  | createProcess created =>
      simp only [launch] at stepEq
      split at stepEq
      · rename_i possible
        simp only [Option.some.injEq] at stepEq
        subst next
        exact .createProcess created atPc possible.1 possible.2
      · simp at stepEq
  | _ => simp [launch] at stepEq

theorem destroy_sound {exit : Exit} (atPc : process.main = .unwind exit)
    (stepEq : process.destroy platform exit = some next) :
    MainStep platform process .destroy next := by
  simp only [destroy] at stepEq
  split at stepEq
  · rename_i frameEq
    simp only [Option.some.injEq] at stepEq
    subst next
    exact .leave exit atPc frameEq
  · rename_i frame frameEq
    split at stepEq
    · rename_i thread alive
      split at stepEq
      · rename_i joinable
        simp only [Option.some.injEq] at stepEq
        subst next
        exact .destroyJoinable exit frame thread atPc frameEq alive joinable
      · rename_i notJoinable
        simp only [Option.some.injEq] at stepEq
        subst next
        exact .destroyThread exit frame thread atPc frameEq alive (by simpa using notJoinable)
    · simp at stepEq
    · simp at stepEq
  · rename_i frame frameEq
    split at stepEq
    · rename_i launched alive
      simp only [Option.some.injEq] at stepEq
      subst next
      exact .destroyProcess exit frame launched atPc frameEq alive
    · simp at stepEq
    · simp at stepEq
  · rename_i frame frameEq
    split at stepEq
    · rename_i pipe alive
      simp only [Option.some.injEq] at stepEq
      subst next
      exact .destroyPipe exit frame pipe atPc frameEq alive
    · simp at stepEq
    · simp at stepEq

theorem mainStep_sound {call : MainCall}
    (stepEq : process.mainStep platform call = some next) :
    MainStep platform process call next := by
  simp only [mainStep] at stepEq
  split at stepEq
  case h_1 result atPc =>
      split at stepEq
      · rename_i answer
        simp only [Option.some.injEq] at stepEq
        subst next
        exact .openPipe result atPc answer
      · simp at stepEq
  case h_2 atPc =>
      split at stepEq
      · rename_i pipe alive
        simp only [Option.some.injEq] at stepEq
        subst next
        cases opened : pipe.successfullyConstructed with
        | false =>
            simp only [GeneralPipe.isSuccessfullyConstructed, opened]
            exact .pipeFailed pipe atPc alive opened
        | true =>
            simp only [GeneralPipe.isSuccessfullyConstructed, opened]
            exact .pipeOpened pipe atPc alive opened
      · simp at stepEq
      · simp at stepEq
  case h_3 atPc => exact launch_sound atPc stepEq
  case h_4 replaced atPc =>
      simp only [Option.some.injEq] at stepEq
      subst next
      cases replaced with
      | true => exact .execReplaced atPc
      | false => exact .execReturned atPc
  case h_5 pid atPc =>
      simp only [Option.some.injEq] at stepEq
      subst next
      exact .storePid pid atPc
  case h_6 buffer atPc =>
      simp only [Option.some.injEq] at stepEq
      subst next
      cases buffer with
      | some buffer => exact .threadStarted buffer atPc
      | none => exact .threadThrew atPc
  case h_7 answer atPc =>
      split at stepEq
      · rename_i launched alive
        simp only [Option.map_eq_some_iff] at stepEq
        rcases stepEq with ⟨children, returns, rfl⟩
        exact .wait launched answer children atPc alive returns
      · simp at stepEq
      · simp at stepEq
  case h_8 atPc =>
      simp only [Option.some.injEq] at stepEq
      subst next
      exact .return0 atPc
  case h_9 exit atPc => exact destroy_sound atPc stepEq
  case h_10 atPc =>
      simp only [Option.some.injEq] at stepEq
      subst next
      exact .die atPc
  case h_11 => simp at stepEq

end Sound

end Process

end MiddleMan
