import MiddleMan.GeneralPipe

/-!
# `GeneralProcess`

The launched program: `fork` or `CreateProcessA` in the constructor, and `Wait`.

`Child` is what the kernel keeps about a child of a process.  On Linux this is what
`waitpid` looks at; on Windows the entry of a created process is named by its process
handle and is what `WaitForSingleObject` looks at.
-/

namespace MiddleMan

/-- A child process, or on Windows a process to which the host has an open handle. -/
structure Child where
  pid : ℤ
  /-- The child is in the process group of its parent. -/
  sameGroup : Bool
  exited : Bool
deriving DecidableEq, Repr

namespace Child

/--
The children selected by the first argument of `waitpid`: one child, the caller's group,
or any child.  An argument below `-1` names another group; `fork` never returns one.
-/
def Selected (argument : ℤ) (child : Child) : Prop :=
  if 0 < argument then child.pid = argument
  else if argument = 0 then child.sameGroup = true
  else argument = -1

instance (argument : ℤ) (child : Child) : Decidable (child.Selected argument) := by
  unfold Selected
  infer_instance

/-- The child terminates; until somebody waits for it, it stays a child. -/
def exit (child : Child) : Child :=
  { child with exited := true }

@[simp]
theorem exit_pid (child : Child) : child.exit.pid = child.pid :=
  rfl

@[simp]
theorem exit_exited (child : Child) : child.exit.exited = true :=
  rfl

@[simp]
theorem selected_of_pos {argument : ℤ} (positive : 0 < argument) (child : Child) :
    child.Selected argument ↔ child.pid = argument := by
  rw [Selected, if_pos positive]

end Child

/-- The child `pid` terminates. -/
def exitChild (pid : ℤ) (children : List Child) : List Child :=
  children.map fun child => if child.pid = pid then child.exit else child

/-- Somebody has waited for `pid`. -/
def removeChild (pid : ℤ) (children : List Child) : List Child :=
  children.filter fun child => child.pid ≠ pid

@[simp]
theorem mem_removeChild {pid : ℤ} {children : List Child} {child : Child} :
    child ∈ removeChild pid children ↔ child ∈ children ∧ child.pid ≠ pid := by
  simp [removeChild]

/-- A terminated child keeps its entry. -/
theorem exists_mem_exitChild {pid other : ℤ} {children : List Child}
    (listed : ∃ child ∈ children, child.pid = pid) :
    ∃ child ∈ exitChild other children, child.pid = pid := by
  rcases listed with ⟨child, child_mem, rfl⟩
  refine ⟨_, List.mem_map_of_mem child_mem, ?_⟩
  split <;> rfl

/-- The children after `fork` returned `pid`; the new child is in the group of its parent. -/
def adoptForked (pid : ℤ) (children : List Child) : List Child :=
  if 0 < pid then { pid := pid, sameGroup := true, exited := false } :: children else children

/-- The children after `CreateProcessA`, if that has created a process. -/
def adoptCreated (created : Option (ℤ × ℤ)) (children : List Child) : List Child :=
  match created with
  | some (hProcess, _) => { pid := hProcess, sameGroup := true, exited := false } :: children
  | none => children

/-- How a call of `waitpid` or `WaitForSingleObject` ends. -/
inductive WaitReturn where
  | reaped (pid : ℤ)
  | noChild
  /-- `waitpid` returned -1 with `EINTR`. -/
  | interrupted
  | signaled
  /-- `WaitForSingleObject` was given something which is not a handle. -/
  | waitFailed
deriving DecidableEq, Repr

/--
`waitpid(argument, &Status, 0)`.  It blocks while a selected child is running and none
has terminated; a signal can end the call only then.
-/
def waitpid (argument : ℤ) (children : List Child) : WaitReturn → Option (List Child)
  | .reaped pid =>
      if ∃ child ∈ children, child.pid = pid ∧ child.Selected argument ∧ child.exited = true then
        some (removeChild pid children)
      else none
  | .noChild =>
      if ∀ child ∈ children, ¬child.Selected argument then some children else none
  | .interrupted =>
      if (∃ child ∈ children, child.Selected argument) ∧
          ∀ child ∈ children, child.Selected argument → child.exited = false then
        some children
      else none
  | .signaled | .waitFailed => none

/--
`WaitForSingleObject(ProcessInformation.hProcess, INFINITE)`.  Without a created process
`hProcess` was never written, and the call may return at any moment.
-/
def waitForSingleObject (processInformation : Option (ℤ × ℤ)) (children : List Child) :
    WaitReturn → Option (List Child)
  | .signaled =>
      match processInformation with
      | some (hProcess, _) =>
          if ∃ child ∈ children, child.pid = hProcess ∧ child.exited = true then some children
          else none
      | none => none
  | .waitFailed => if processInformation = none then some children else none
  | .reaped _ | .noChild | .interrupted => none

/-- The class `Process`. -/
structure GeneralProcess where
  /-- `ChildPid`, on Linux. -/
  childPid : Option ℤ
  /-- `hProcess` and `hThread` on Windows, as long as `CreateProcessA` stored any. -/
  processInformation : Option (ℤ × ℤ)
deriving DecidableEq, Repr

/-- The answers of `fork` in the parent: failure, or the pid of a new child. -/
def ForkAnswer (children : List Child) (pid : ℤ) : Prop :=
  pid = -1 ∨ (0 < pid ∧ ∀ child ∈ children, child.pid ≠ pid)

instance (children : List Child) (pid : ℤ) : Decidable (ForkAnswer children pid) :=
  inferInstanceAs (Decidable (_ ∨ _))

theorem ForkAnswer.le {children : List Child} {pid : ℤ} (answer : ForkAnswer children pid) :
    -1 ≤ pid := by
  rcases answer with rfl | ⟨positive, _⟩
  · exact Int.le_refl _
  · omega

/-- What `CreateProcessA` can answer: new handles, or that there is no process. -/
def CreateProcessAnswer (table : HandleTable) (children : List Child) :
    Option (ℤ × ℤ) → Prop
  | none => True
  | some (hProcess, hThread) =>
      0 ≤ hProcess ∧ 0 ≤ hThread ∧ hProcess ≠ hThread ∧ table.Free hProcess ∧
        table.Free hThread ∧ ∀ child ∈ children, child.pid ≠ hProcess

instance (table : HandleTable) (children : List Child) (created : Option (ℤ × ℤ)) :
    Decidable (CreateProcessAnswer table children created) := by
  cases created <;> unfold CreateProcessAnswer <;> infer_instance

theorem CreateProcessAnswer.withoutChildren {table : HandleTable} {children : List Child}
    {created : Option (ℤ × ℤ)} (answer : CreateProcessAnswer table children created) :
    CreateProcessAnswer table [] created := by
  cases created with
  | none => trivial
  | some handles =>
      rcases answer with ⟨processNonneg, threadNonneg, different, processFree, threadFree, _⟩
      exact ⟨processNonneg, threadNonneg, different, processFree, threadFree, by simp⟩

namespace GeneralProcess

/-- The end of the constructor on Linux: `ChildPid = pid`, also when `fork` returned -1 or 0. -/
def constructLinux (pid : ℤ) : GeneralProcess :=
  { childPid := some pid
    processInformation := none }

/-- The constructor on Windows; the result of `CreateProcessA` is not looked at. -/
def constructWindows (created : Option (ℤ × ℤ)) : GeneralProcess :=
  { childPid := none
    processInformation := created }

/-- The handles which `CreateProcessA` opens; they are not inherited. -/
def resources : Option (ℤ × ℤ) → List Resource
  | none => []
  | some (hProcess, hThread) =>
      [{ kind := .process, value := hProcess, inheritable := false },
        { kind := .thread, value := hThread, inheritable := false }]

/-- The destructor has an empty body on both platforms. -/
def destruct (_process : GeneralProcess) (table : HandleTable) : HandleTable :=
  table

/-- `Wait`: the children left when it returns, if it can return this way. -/
def wait (platform : Platform) (process : GeneralProcess) (children : List Child)
    (answer : WaitReturn) : Option (List Child) :=
  match platform with
  | .windows => waitForSingleObject process.processInformation children answer
  | .linux =>
      match process.childPid with
      | some pid => waitpid pid children answer
      | none => none

end GeneralProcess

/-- Waiting for one child: it is released after it exited, it is gone, or it still runs. -/
theorem waitpid_of_pos {pid : ℤ} (positive : 0 < pid) {children rest : List Child}
    {answer : WaitReturn} (returns : waitpid pid children answer = some rest) :
    (answer = .reaped pid ∧ rest = removeChild pid children ∧
        ∃ child ∈ children, child.pid = pid ∧ child.exited = true) ∨
      (answer = .noChild ∧ rest = children ∧ ∀ child ∈ children, child.pid ≠ pid) ∨
        (answer = .interrupted ∧ rest = children ∧
          ∃ child ∈ children, child.pid = pid ∧ child.exited = false) := by
  cases answer with
  | reaped other =>
      simp only [waitpid, Child.selected_of_pos positive] at returns
      split at returns
      · rename_i reapable
        rcases reapable with ⟨child, child_mem, rfl, samePid, exited⟩
        rw [Option.some.injEq, samePid] at returns
        exact Or.inl ⟨by rw [samePid], returns.symm, child, child_mem, samePid, exited⟩
      · simp at returns
  | noChild =>
      simp only [waitpid, Child.selected_of_pos positive] at returns
      split at returns
      · rename_i absent
        exact Or.inr (Or.inl ⟨rfl, (Option.some.inj returns).symm, absent⟩)
      · simp at returns
  | interrupted =>
      simp only [waitpid, Child.selected_of_pos positive] at returns
      split at returns
      · rename_i running
        rcases running with ⟨⟨child, child_mem, samePid⟩, noneExited⟩
        exact Or.inr (Or.inr ⟨rfl, (Option.some.inj returns).symm, child, child_mem, samePid,
          noneExited child child_mem samePid⟩)
      · simp at returns
  | signaled => simp [waitpid] at returns
  | waitFailed => simp [waitpid] at returns

/-- On Windows waiting releases nothing. -/
theorem waitForSingleObject_children {processInformation : Option (ℤ × ℤ)}
    {children rest : List Child} {answer : WaitReturn}
    (returns : waitForSingleObject processInformation children answer = some rest) :
    rest = children := by
  simp only [waitForSingleObject] at returns
  split at returns
  · split at returns
    · split at returns
      · exact (Option.some.inj returns).symm
      · simp at returns
    · simp at returns
  · split at returns
    · exact (Option.some.inj returns).symm
    · simp at returns
  all_goals simp at returns

theorem waitForSingleObject_of_created {hProcess hThread : ℤ} {children rest : List Child}
    {answer : WaitReturn}
    (returns : waitForSingleObject (some (hProcess, hThread)) children answer = some rest) :
    answer = .signaled ∧ rest = children ∧
      ∃ child ∈ children, child.pid = hProcess ∧ child.exited = true := by
  cases answer with
  | signaled =>
      simp only [waitForSingleObject] at returns
      split at returns
      · rename_i signaled
        exact ⟨rfl, (Option.some.inj returns).symm, signaled⟩
      · simp at returns
  | reaped pid => simp [waitForSingleObject] at returns
  | noChild => simp [waitForSingleObject] at returns
  | interrupted => simp [waitForSingleObject] at returns
  | waitFailed => simp [waitForSingleObject] at returns

end MiddleMan
