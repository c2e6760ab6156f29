import MiddleMan.GeneralProcess
import MiddleMan.Library.Transition
import MiddleMan.Library.Ownership

/-!
# Ownership of descriptors and handles

A history constructs and destroys objects of the two classes in any order.  `Ledger`
records what the process has open, the objects alive, and what each program it started
was given.  After a `fork` whose `execlp` returns, the history may go on in either of
the two processes.

The books are in order when what is open is exactly what the live objects own, and no
started program holds a read end of a pipe.  One step out of such a state keeps the books
in order under an exact condition on the object destroyed, or on the pipes alive when a
program is started; along a whole history this is a condition on its steps.
-/

namespace MiddleMan

/-- An object of one of the two classes which own something of the operating system. -/
inductive Object where
  | generalPipe (pipe : GeneralPipe)
  | generalProcess (process : GeneralProcess)
deriving DecidableEq, Repr

namespace Object

/-- What the object has opened. -/
def resources (platform : Platform) : Object → List Resource
  | .generalPipe pipe =>
      if pipe.descriptor = invalidHandle then []
      else [GeneralPipe.resource platform pipe.descriptor]
  | .generalProcess process => GeneralProcess.resources process.processInformation

/-- The table after the destructor. -/
def destruct (platform : Platform) : Object → HandleTable → HandleTable
  | .generalPipe pipe => pipe.destruct platform
  | .generalProcess process => process.destruct

/-- The call which opens the pipe or creates the process failed, or there is none. -/
def OpenedNothing : Object → Prop
  | .generalPipe pipe => pipe.descriptor = invalidHandle
  | .generalProcess process => process.processInformation = none

/-- The object is a `GeneralPipe`. -/
def IsPipe : Object → Prop
  | .generalPipe _ => True
  | .generalProcess _ => False

theorem resources_eq_nil_iff (platform : Platform) (object : Object) :
    object.resources platform = [] ↔ object.OpenedNothing := by
  cases object with
  | generalPipe pipe => simp [resources, OpenedNothing]
  | generalProcess process =>
      cases opened : process.processInformation <;>
        simp [resources, OpenedNothing, GeneralProcess.resources, opened]

/-- A read end belongs to a pipe; only on Linux do programs inherit it. -/
theorem of_pipeReadEnd_mem {platform : Platform} {object : Object} {resource : Resource}
    (owned : resource ∈ object.resources platform) (isReadEnd : resource.kind = .pipeReadEnd) :
    ∃ pipe, object = .generalPipe pipe ∧ pipe.descriptor ≠ invalidHandle ∧
      (resource.inheritable = true ↔ platform = .linux) := by
  cases object with
  | generalPipe pipe =>
      simp only [resources] at owned
      split at owned
      · simp at owned
      · rename_i opened
        simp only [List.mem_singleton] at owned
        subst resource
        exact ⟨pipe, rfl, opened, by cases platform <;> simp [GeneralPipe.resource]⟩
  | generalProcess process =>
      rcases opened : process.processInformation with _ | ⟨hProcess, hThread⟩
      · simp [resources, GeneralProcess.resources, opened] at owned
      · simp only [resources, GeneralProcess.resources, opened, List.mem_cons,
          List.not_mem_nil, or_false] at owned
        rcases owned with rfl | rfl <;> simp at isReadEnd

end Object

/-- How the constructor of `GeneralProcess` went in the process whose history it is. -/
inductive Launch where
  /--
  `fork` returned `pid`, which is 0 if the history goes on in the forked child after a
  returning `execlp`.  In the parent `replaced` tells whether `execlp` replaced the image.
  -/
  | forked (pid : ℤ) (replaced : Bool)
  | created (handles : Option (ℤ × ℤ))
deriving DecidableEq, Repr

/-- What a process has open through the two classes, and what its programs were given. -/
structure Ledger where
  table : HandleTable
  /-- The objects alive, the last constructed first. -/
  alive : List Object
  /-- What each started program had open when its image was in place. -/
  programs : List HandleTable
deriving DecidableEq, Repr

namespace Ledger

/-- A construction, or the destruction of the object at an index. -/
inductive Event where
  | newPipe (result : ℤ)
  | newProcess (launch : Launch)
  | delete (index : ℕ)
deriving DecidableEq, Repr

/-- Nothing is open, and there are no objects. -/
def initial : Ledger :=
  { table := []
    alive := []
    programs := [] }

/-- The constructor of `Process`. -/
def newProcess (platform : Platform) (ledger : Ledger) : Launch → Option Ledger
  | .forked pid replaced =>
      if platform = .linux ∧ -1 ≤ pid ∧ (replaced = true → 0 < pid) then
        some
          { ledger with
            alive := .generalProcess (GeneralProcess.constructLinux pid) :: ledger.alive
            -- the child's table is a copy of this one, and `execlp` keeps what is inheritable
            programs :=
              if replaced then ledger.table.inherited :: ledger.programs else ledger.programs }
      else none
  | .created handles =>
      if platform = .windows ∧ CreateProcessAnswer ledger.table [] handles then
        some
          { table := GeneralProcess.resources handles ++ ledger.table
            alive := .generalProcess (GeneralProcess.constructWindows handles) :: ledger.alive
            programs :=
              if handles.isSome then ledger.table.inherited :: ledger.programs
              else ledger.programs }
      else none

/-- One construction or destruction, with what the operating system answered. -/
def step (platform : Platform) (ledger : Ledger) : Event → Option Ledger
  | .newPipe result =>
      if OpenAnswer ledger.table result then
        some
          { ledger with
            table := GeneralPipe.openInto platform result ledger.table
            alive := .generalPipe (GeneralPipe.construct platform result) :: ledger.alive }
      else none
  | .newProcess launch => ledger.newProcess platform launch
  | .delete index =>
      ledger.alive[index]?.map fun object =>
        { ledger with
          table := object.destruct platform ledger.table
          alive := ledger.alive.eraseIdx index }

/-- The steps with the ledger they lead to. -/
inductive Step (platform : Platform) (ledger : Ledger) : Event → Ledger → Prop where
  | newPipe (result : ℤ) (answer : OpenAnswer ledger.table result) :
      Step platform ledger (.newPipe result)
        { ledger with
          table := GeneralPipe.openInto platform result ledger.table
          alive := .generalPipe (GeneralPipe.construct platform result) :: ledger.alive }
  | forked (pid : ℤ) (onLinux : platform = .linux) (returned : -1 ≤ pid) :
      Step platform ledger (.newProcess (.forked pid false))
        { ledger with alive := .generalProcess (GeneralProcess.constructLinux pid) :: ledger.alive }
  | replaced (pid : ℤ) (onLinux : platform = .linux) (inParent : 0 < pid) :
      Step platform ledger (.newProcess (.forked pid true))
        { ledger with
          alive := .generalProcess (GeneralProcess.constructLinux pid) :: ledger.alive
          programs := ledger.table.inherited :: ledger.programs }
  | createFailed (onWindows : platform = .windows) :
      Step platform ledger (.newProcess (.created none))
        { ledger with
          alive := .generalProcess (GeneralProcess.constructWindows none) :: ledger.alive }
  | created (hProcess hThread : ℤ) (onWindows : platform = .windows)
      (answer : CreateProcessAnswer ledger.table [] (some (hProcess, hThread))) :
      Step platform ledger (.newProcess (.created (some (hProcess, hThread))))
        { table := GeneralProcess.resources (some (hProcess, hThread)) ++ ledger.table
          alive :=
            .generalProcess (GeneralProcess.constructWindows (some (hProcess, hThread))) ::
              ledger.alive
          programs := ledger.table.inherited :: ledger.programs }
  | delete (index : ℕ) (object : Object) (present : ledger.alive[index]? = some object) :
      Step platform ledger (.delete index)
        { ledger with
          table := object.destruct platform ledger.table
          alive := ledger.alive.eraseIdx index }

variable {platform : Platform} {ledger next : Ledger}

theorem newProcess_sound {launch : Launch}
    (stepEq : ledger.newProcess platform launch = some next) :
    Step platform ledger (.newProcess launch) next := by
  cases launch with
  | forked pid replaced =>
      simp only [newProcess] at stepEq
      split at stepEq
      · rename_i possible
        simp only [Option.some.injEq] at stepEq
        subst next
        cases replaced with
        | true => exact .replaced pid possible.1 (possible.2.2 rfl)
        | false => exact .forked pid possible.1 possible.2.1
      · simp at stepEq
  | created handles =>
      simp only [newProcess] at stepEq
      split at stepEq
      · rename_i possible
        simp only [Option.some.injEq] at stepEq
        subst next
        rcases handles with _ | ⟨hProcess, hThread⟩
        · exact .createFailed possible.1
        · exact .created hProcess hThread possible.1 possible.2
      · simp at stepEq

theorem step_sound {event : Event} (stepEq : ledger.step platform event = some next) :
    Step platform ledger event next := by
  cases event with
  | newPipe result =>
      simp only [step] at stepEq
      split at stepEq
      · rename_i answer
        simp only [Option.some.injEq] at stepEq
        subst next
        exact .newPipe result answer
      · simp at stepEq
  | newProcess launch => exact newProcess_sound stepEq
  | delete index =>
      simp only [step, Option.map_eq_some_iff] at stepEq
      rcases stepEq with ⟨object, present, rfl⟩
      exact .delete index object present

/-! ## Values -/

/-- The values in the table are distinct, and none of them is `INVALID_HANDLE_VALUE`. -/
structure ValuesValid (ledger : Ledger) : Prop where
  distinct : (ledger.table.map Resource.value).Nodup
  nonneg : ∀ resource ∈ ledger.table, 0 ≤ resource.value

theorem valuesValid_initial : initial.ValuesValid :=
  ⟨List.nodup_nil, by simp [initial]⟩

theorem ValuesValid.closeHandle (valid : ledger.ValuesValid) (value : ℤ) (alive : List Object) :
    ValuesValid
      { ledger with table := HandleTable.closeHandle ledger.table value, alive := alive } :=
  ⟨valid.distinct.sublist (List.eraseP_sublist.map Resource.value),
    fun resource resource_mem => valid.nonneg resource (List.mem_of_mem_eraseP resource_mem)⟩

theorem ValuesValid.closeHandle_invalid (valid : ledger.ValuesValid) :
    HandleTable.closeHandle ledger.table invalidHandle = ledger.table := by
  apply List.eraseP_of_forall_not
  intro resource resource_mem isInvalid
  have nonneg := valid.nonneg resource resource_mem
  rw [beq_iff_eq] at isInvalid
  simp only [invalidHandle] at isInvalid
  omega

theorem not_mem_map_value_iff {table : HandleTable} {value : ℤ} :
    value ∉ table.map Resource.value ↔ table.Free value := by
  simp [HandleTable.Free]

theorem Step.valuesValid {event : Event} (step : Step platform ledger event next)
    (valid : ledger.ValuesValid) : next.ValuesValid := by
  cases step with
  | newPipe result answer =>
      rcases answer with rfl | ⟨nonneg, free⟩
      · exact ⟨valid.distinct, valid.nonneg⟩
      · by_cases failed : result = invalidHandle
        · rw [GeneralPipe.openInto, if_pos failed]
          exact ⟨valid.distinct, valid.nonneg⟩
        · rw [GeneralPipe.openInto, if_neg failed]
          exact ⟨List.nodup_cons.mpr ⟨not_mem_map_value_iff.mpr free, valid.distinct⟩,
            List.forall_mem_cons.mpr ⟨nonneg, valid.nonneg⟩⟩
  | forked pid onLinux returned => exact ⟨valid.distinct, valid.nonneg⟩
  | replaced pid onLinux inParent => exact ⟨valid.distinct, valid.nonneg⟩
  | createFailed onWindows => exact ⟨valid.distinct, valid.nonneg⟩
  | created hProcess hThread onWindows answer =>
      rcases answer with ⟨processNonneg, threadNonneg, different, processFree, threadFree, _⟩
      have threadDistinct := List.nodup_cons.mpr
        ⟨not_mem_map_value_iff.mpr threadFree, valid.distinct⟩
      have processNotMem : hProcess ∉ hThread :: ledger.table.map Resource.value := by
        rw [List.mem_cons, not_or]
        exact ⟨different, not_mem_map_value_iff.mpr processFree⟩
      exact ⟨List.nodup_cons.mpr ⟨processNotMem, threadDistinct⟩,
        List.forall_mem_cons.mpr
          ⟨processNonneg, List.forall_mem_cons.mpr ⟨threadNonneg, valid.nonneg⟩⟩⟩
  | delete index object present =>
      cases object with
      | generalProcess process => exact ⟨valid.distinct, valid.nonneg⟩
      | generalPipe pipe =>
          cases platform with
          | linux => exact ⟨valid.distinct, valid.nonneg⟩
          | windows => exact valid.closeHandle pipe.descriptor _

/-! ## The books -/

/-- What is open is exactly what the live objects own. -/
def Owned (platform : Platform) (ledger : Ledger) : Prop :=
  Ownership.Exact (Object.resources platform) ledger.table ledger.alive

/-- No started program holds a read end of a pipe. -/
def NothingInherited (ledger : Ledger) : Prop :=
  ∀ table ∈ ledger.programs, ∀ resource ∈ table, resource.kind ≠ .pipeReadEnd

/-- What is open belongs to a living object, and no program has inherited anything. -/
structure InOrder (platform : Platform) (ledger : Ledger) : Prop where
  owned : ledger.Owned platform
  nothingInherited : ledger.NothingInherited

/-- No living `GeneralPipe` has its end of the pipe open. -/
def NoOpenPipe (ledger : Ledger) : Prop :=
  ∀ pipe, .generalPipe pipe ∈ ledger.alive → pipe.descriptor = invalidHandle

/--
The condition on a step.  An object is destroyed only if it opened nothing or is a pipe
on Windows, and `execlp` replaces an image only while no opened pipe is alive.
-/
def StepOk (platform : Platform) (ledger : Ledger) : Event → Prop
  | .newPipe _ => True
  | .newProcess (.forked _ replaced) => replaced = true → ledger.NoOpenPipe
  | .newProcess (.created _) => True
  | .delete index =>
      ∀ object, ledger.alive[index]? = some object →
        object.OpenedNothing ∨ platform = .windows ∧ object.IsPipe

theorem inOrder_initial : initial.InOrder platform :=
  ⟨Ownership.exact_nil, by simp [NothingInherited, initial]⟩

theorem Owned.newPipe (owned : ledger.Owned platform) {result : ℤ} :
    Ownership.Exact (Object.resources platform)
      (GeneralPipe.openInto platform result ledger.table)
      (.generalPipe (GeneralPipe.construct platform result) :: ledger.alive) := by
  have acquired :=
    Ownership.Exact.acquire owned (.generalPipe (GeneralPipe.construct platform result))
  by_cases failed : result = invalidHandle
  · simpa [Object.resources, GeneralPipe.construct, GeneralPipe.openInto, failed] using acquired
  · simpa [Object.resources, GeneralPipe.construct, GeneralPipe.openInto, failed] using acquired

/-- The death of an object keeps the ownership exact if its destructor does its part. -/
theorem Owned.delete_iff (owned : ledger.Owned platform) (valid : ledger.ValuesValid)
    {index : ℕ} {object : Object} (present : ledger.alive[index]? = some object) :
    Ownership.Exact (Object.resources platform) (object.destruct platform ledger.table)
        (ledger.alive.eraseIdx index) ↔
      object.OpenedNothing ∨ platform = .windows ∧ object.IsPipe := by
  rw [← object.resources_eq_nil_iff platform]
  cases object with
  | generalProcess process =>
      simp only [Object.destruct, GeneralProcess.destruct, Object.IsPipe, and_false, or_false]
      exact Ownership.Exact.keep_iff owned present
  | generalPipe pipe =>
      cases platform with
      | linux =>
          simp only [Object.destruct, GeneralPipe.destruct, reduceCtorEq, false_and, or_false]
          exact Ownership.Exact.keep_iff owned present
      | windows =>
          refine iff_of_true ?_ (Or.inr ⟨rfl, trivial⟩)
          simp only [Object.destruct, GeneralPipe.destruct]
          rw [Ownership.Exact.release_iff owned present]
          by_cases failed : pipe.descriptor = invalidHandle
          · simp [Object.resources, failed, valid.closeHandle_invalid]
          · -- the handle is open, and no other open handle has its value
            have resourceEq : Object.resources .windows (.generalPipe pipe) =
                [GeneralPipe.resource .windows pipe.descriptor] := by
              simp [Object.resources, failed]
            have isOpen : GeneralPipe.resource .windows pipe.descriptor ∈ ledger.table :=
              Ownership.Exact.mem_of_owner owned (List.mem_of_getElem? present)
                (by simp [resourceEq])
            rw [resourceEq]
            exact Ownership.perm_cons_eraseP_key valid.distinct isOpen

/-- A program gets a read end exactly if, on Linux, an opened pipe is alive. -/
theorem Owned.inherited_iff (owned : ledger.Owned platform) :
    (∀ resource ∈ ledger.table.inherited, resource.kind ≠ .pipeReadEnd) ↔
      (platform = .linux → ledger.NoOpenPipe) := by
  constructor
  · rintro nothingInherited rfl pipe pipe_mem
    by_contra opened
    have isOpen : GeneralPipe.resource .linux pipe.descriptor ∈ ledger.table :=
      Ownership.Exact.mem_of_owner owned pipe_mem (by simp [Object.resources, opened])
    exact nothingInherited _ (List.mem_filter.mpr ⟨isOpen, rfl⟩) rfl
  · intro noOpenPipe resource resource_mem isReadEnd
    rcases List.mem_filter.mp resource_mem with ⟨isOpen, inheritable⟩
    rcases Ownership.Exact.owner_of_mem owned isOpen with ⟨object, object_mem, owns⟩
    rcases Object.of_pipeReadEnd_mem owns isReadEnd with ⟨pipe, rfl, opened, inheritable_iff⟩
    exact opened (noOpenPipe (inheritable_iff.mp inheritable) pipe object_mem)

theorem Step.owned {event : Event} (step : Step platform ledger event next)
    (noDelete : ∀ index, event ≠ .delete index) (owned : ledger.Owned platform) :
    next.Owned platform := by
  have acquired := fun object => Ownership.Exact.acquire owned object
  cases step with
  | newPipe result answer => exact owned.newPipe
  | forked pid onLinux returned =>
      exact acquired (.generalProcess (GeneralProcess.constructLinux pid))
  | replaced pid onLinux inParent =>
      exact acquired (.generalProcess (GeneralProcess.constructLinux pid))
  | createFailed onWindows =>
      exact acquired (.generalProcess (GeneralProcess.constructWindows none))
  | created hProcess hThread onWindows answer =>
      exact acquired (.generalProcess (GeneralProcess.constructWindows (some (hProcess, hThread))))
  | delete index object present => exact absurd rfl (noDelete index)

/-- A step out of a state with the books in order keeps them so if it meets the condition. -/
theorem Step.inOrder_iff {event : Event} (step : Step platform ledger event next)
    (valid : ledger.ValuesValid) (inOrder : ledger.InOrder platform) :
    next.InOrder platform ↔ StepOk platform ledger event := by
  have owned := fun noDelete => step.owned noDelete inOrder.owned
  cases step with
  | newPipe result answer =>
      exact iff_of_true ⟨owned (by simp), inOrder.nothingInherited⟩ trivial
  | forked pid onLinux returned =>
      exact iff_of_true ⟨owned (by simp), inOrder.nothingInherited⟩ (by simp [StepOk])
  | replaced pid onLinux inParent =>
      have programOk := inOrder.owned.inherited_iff
      simp only [onLinux, forall_const] at programOk
      simp only [StepOk, forall_const, ← programOk]
      constructor
      · intro nextInOrder
        exact nextInOrder.nothingInherited _ List.mem_cons_self
      · intro nothing
        exact ⟨owned (by simp), List.forall_mem_cons.mpr ⟨nothing, inOrder.nothingInherited⟩⟩
  | createFailed onWindows =>
      exact iff_of_true ⟨owned (by simp), inOrder.nothingInherited⟩ trivial
  | created hProcess hThread onWindows answer =>
      have nothing := inOrder.owned.inherited_iff.mpr (by simp [onWindows])
      exact iff_of_true
        ⟨owned (by simp), List.forall_mem_cons.mpr ⟨nothing, inOrder.nothingInherited⟩⟩ trivial
  | delete index object present =>
      have deleteOk := inOrder.owned.delete_iff valid present
      simp only [StepOk, present, Option.some.injEq, forall_eq', ← deleteOk]
      exact ⟨fun nextInOrder => nextInOrder.owned,
        fun owned => ⟨owned, inOrder.nothingInherited⟩⟩

/-- No object is destroyed. -/
def NoDelete (events : List Event) : Prop :=
  ∀ event ∈ events, ∀ index, event ≠ .delete index

theorem owned_of_run {events : List Event} {final : Ledger}
    (runs : Transition.run (step platform) initial events = some final)
    (noDelete : NoDelete events) : final.Owned platform :=
  Transition.invariant_of_allowed (fun event : Event => ∀ index : ℕ, event ≠ .delete index)
    inOrder_initial.owned
    (fun _ _ _ owned eventNoDelete stepEq => (step_sound stepEq).owned eventNoDelete owned)
    runs noDelete

/--
The books are in order in every state of a history exactly if all its steps meet the
condition.
-/
theorem inOrder_iff_stepOk {events : List Event} {final : Ledger}
    (runs : Transition.run (step platform) initial events = some final) :
    Transition.EveryState (step platform) (InOrder platform) initial events ↔
      Transition.EveryStep (step platform) (StepOk platform) initial events :=
  Transition.everyState_iff_everyStep ValuesValid
    (fun _ _ _ valid stepEq => (step_sound stepEq).valuesValid valid)
    (fun _ _ _ valid inOrder stepEq => (step_sound stepEq).inOrder_iff valid inOrder)
    valuesValid_initial inOrder_initial runs

/-- The order in which `StartMiddleMan` nests the two objects, on Windows. -/
def nestedEvents : List Event :=
  [.newPipe 4, .newProcess (.created (some (8, 12))), .delete 0, .delete 0]

theorem inOrder_iff_stepOk_nested :
    ∃ final, Transition.run (step .windows) initial nestedEvents = some final ∧
      (Transition.EveryState (step .windows) (InOrder .windows) initial nestedEvents ↔
        Transition.EveryStep (step .windows) (StepOk .windows) initial nestedEvents) :=
  ⟨_, rfl, inOrder_iff_stepOk rfl⟩

/--
A destroyed pipe stays open on Linux, the handles of a destroyed process stay open on
Windows, and a program started next to an opened pipe inherits its read end on Linux.
-/
theorem leaked_and_inherited :
    (∃ final, Transition.run (step .linux) initial [.newPipe 3, .delete 0] = some final ∧
        ¬final.Owned .linux) ∧
      (∃ final, Transition.run (step .windows) initial
            [.newProcess (.created (some (8, 12))), .delete 0] = some final ∧
          ¬final.Owned .windows) ∧
        ∃ final, Transition.run (step .linux) initial
            [.newPipe 3, .newProcess (.forked 100 true)] = some final ∧
          ¬final.NothingInherited := by
  refine ⟨⟨_, rfl, ?_⟩, ⟨_, rfl, ?_⟩, ⟨_, rfl, ?_⟩⟩
  · intro owned
    have sameLength := List.Perm.length_eq owned
    simp [initial, GeneralPipe.openInto, GeneralPipe.destruct, Object.destruct,
      GeneralPipe.construct, invalidHandle] at sameLength
  · intro owned
    have sameLength := List.Perm.length_eq owned
    simp [initial, GeneralProcess.resources, GeneralProcess.destruct, Object.destruct]
      at sameLength
  · intro nothingInherited
    exact nothingInherited _ List.mem_cons_self (GeneralPipe.resource .linux 3)
      List.mem_cons_self rfl

end Ledger

end MiddleMan
