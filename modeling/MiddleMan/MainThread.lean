import MiddleMan.Launch
import MiddleMan.Locals

/-!
# The main thread: what it waits for

Between its calls the main thread of `StartMiddleMan` has nothing to wait for.  Two of the
calls wait for somebody else: on Linux `open` returns when another process opens the FIFO
for writing, and `Wait` returns when a child has terminated.  In every other state, until it
has left `StartMiddleMan` or has ended, the thread can take its next step by itself.

For this the locals must be alive when their destructors run, and on Windows the entry of
the created process must stay there: its handle is never closed.
-/

namespace MiddleMan

namespace Process

/-- On Windows the created process has an entry among the children. -/
def CreatedListed (process : Process) : Prop :=
  ∀ launched hProcess hThread, process.process = .alive launched →
    launched.processInformation = some (hProcess, hThread) →
      ∃ child ∈ process.children, child.pid = hProcess

variable {platform : Platform} {process next : Process}

/-! ## The locals in the frame -/

/-- Every local in the frame is alive, and on Linux a constructed `Process` has a pid. -/
structure LocalsAlive (platform : Platform) (process : Process) : Prop where
  hasHistory : process.HasHistory platform
  pipe : .pipe ∈ process.frame → ∃ pipe, process.pipe = .alive pipe
  launched : .process ∈ process.frame →
    ∃ launched, process.process = .alive launched ∧
      (platform = .linux → ∃ pid, launched.childPid = some pid)
  pipeReader : .pipeReader ∈ process.frame → ∃ thread, process.pipeReader = .alive thread

theorem LocalsAlive.quiet (alive : process.LocalsAlive platform)
    (hasHistory : next.HasHistory platform) (frameEq : next.frame = process.frame)
    (pipeEq : next.pipe = process.pipe) (processEq : next.process = process.process)
    (threadEq : next.pipeReader = process.pipeReader) : next.LocalsAlive platform where
  hasHistory := hasHistory
  pipe := by
    rw [frameEq, pipeEq]
    exact alive.pipe
  launched := by
    rw [frameEq, processEq]
    exact alive.launched
  pipeReader := by
    rw [frameEq, threadEq]
    exact alive.pipeReader

end Process

namespace Process

variable {platform : Platform} {process next : Process}

theorem CreatedListed.mono (listed : process.CreatedListed) {children : List Child}
    (kept : ∀ pid, (∃ child ∈ process.children, child.pid = pid) →
      ∃ child ∈ children, child.pid = pid) :
    { process with children := children }.CreatedListed := by
  intro launched hProcess hThread alive created
  exact kept hProcess (listed launched hProcess hThread alive created)

theorem MainStep.createdListed {call : MainCall} (step : MainStep .windows process call next)
    (listed : process.CreatedListed) : next.CreatedListed := by
  cases step with
  | createProcess created atPc onWindows answer =>
      intro launched hProcess hThread alive isCreated
      have launchedEq : GeneralProcess.constructWindows created = launched :=
        Lifetime.alive.inj alive
      subst launchedEq
      have createdEq : created = some (hProcess, hThread) := isCreated
      subst createdEq
      exact ⟨_, List.mem_cons_self, rfl⟩
  | storePid pid atPc =>
      intro launched hProcess hThread alive isCreated
      have launchedEq : GeneralProcess.constructLinux pid = launched := Lifetime.alive.inj alive
      subst launchedEq
      simp [GeneralProcess.constructLinux] at isCreated
  | wait launched answer children atPc alive returns =>
      have sameChildren : children = process.children := waitForSingleObject_children returns
      subst sameChildren
      exact listed
  | fork pid atPc onLinux answer => simp at onLinux
  | destroyProcess exit frame launched atPc frameEq alive =>
      intro launched hProcess hThread isAlive
      simp at isAlive
  | _ => exact listed

end Process

namespace System

variable {platform : Platform} {system next : System}

/-- On Windows there is one process, and its created process keeps its entry. -/
structure Created (system : System) : Prop where
  noForked : system.forked = none
  listed : system.host.CreatedListed

theorem Created.exitChild (created : system.Created) (pid : ℤ) :
    { system.host with
      children := MiddleMan.exitChild pid system.host.children }.CreatedListed :=
  created.listed.mono fun _ isListed => exists_mem_exitChild isListed

theorem Created.reportExit (created : system.Created) : system.reportExit.Created := by
  refine ⟨by simpa using created.noForked, ?_⟩
  simp only [System.reportExit]
  split
  · exact created.exitChild _
  · exact created.listed

theorem Step.created {event : Event} (step : Step .windows system event next)
    (created : system.Created) : next.Created := by
  cases step with
  | hostMain call process mainStep =>
      refine ⟨?_, by simpa using mainStep.createdListed created.listed⟩
      rcases system.afterHost_forked process call with unchanged | ⟨pid, rfl, _, _⟩
      · rw [unchanged, created.noForked]
      · cases mainStep with
        | fork pid atPc onLinux answer => simp at onLinux
  | forkedMain call process processNext present mainStep =>
      simp [created.noForked] at present
  | reader who call process reader readerNext channel present running hasReader readerStep =>
      cases who with
      | host =>
          simp only [System.process, Option.some.injEq] at present
          subst process
          exact ⟨created.noForked, created.listed⟩
      | forked => simp [System.process, created.noForked] at present
  | programExit running => exact Created.reportExit ⟨created.noForked, created.listed⟩
  | write bytes => exact ⟨created.noForked, created.listed⟩
  | keystroke key => exact ⟨created.noForked, created.listed⟩
  | childExit pid other => exact ⟨created.noForked, created.exitChild pid⟩
  | childReaped pid onLinux exited => simp at onLinux

end System

end MiddleMan
