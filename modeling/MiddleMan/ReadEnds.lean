import MiddleMan.Launch

/-!
# Who has the pipe open for reading

On Linux the descriptor of the pipe is neither closed by `~GeneralPipe` nor at `execlp`, so
the copy made by `fork` and the program it becomes hold the read end as well.  Once none of
these processes is left, nothing opens the pipe again.

This is about a process which ends with `StartMiddleMan`, as `MiddleManTerminal` does.
-/

namespace MiddleMan

/-- The table holds a read end of the pipe. -/
def HandleTable.holdsReadEnd (table : HandleTable) : Bool :=
  table.any fun resource => resource.kind == .pipeReadEnd

namespace HandleTable

theorem holdsReadEnd_iff (table : HandleTable) :
    table.holdsReadEnd = true ↔ ∃ resource ∈ table, resource.kind = .pipeReadEnd := by
  simp [holdsReadEnd]

theorem holdsReadEnd_of_inherited {table : HandleTable}
    (holds : table.inherited.holdsReadEnd = true) : table.holdsReadEnd = true := by
  rw [holdsReadEnd_iff] at holds ⊢
  rcases holds with ⟨resource, resource_mem, isReadEnd⟩
  exact ⟨resource, (List.mem_filter.mp resource_mem).1, isReadEnd⟩

end HandleTable

namespace Process

/-- What the process has open, if it ends with `StartMiddleMan`. -/
def openHandles (process : Process) : HandleTable :=
  match process.main with
  | .left _ | .dead => []
  | .replaced => process.table.inherited
  | _ => process.table

/-- The process has an end of the pipe which its children and its program inherit. -/
def HoldsReadEnd (process : Process) : Prop :=
  process.table.inherited.holdsReadEnd = true

variable {process next : Process}

theorem PipeUsable.holdsReadEnd (usable : process.PipeUsable .linux) : process.HoldsReadEnd := by
  rcases usable with ⟨pipe, _, _, resource_mem⟩
  rw [HoldsReadEnd, HandleTable.holdsReadEnd_iff]
  exact ⟨_, List.mem_filter.mpr ⟨resource_mem, rfl⟩, rfl⟩

/-- On Linux nothing but the opening of the pipe changes the table. -/
theorem MainStep.table_cases {call : MainCall} (step : MainStep .linux process call next) :
    next.table = process.table ∨
      ∃ result, call = .openPipe result ∧ process.main = .constructPipe ∧
        next.table = GeneralPipe.openInto .linux result process.table := by
  cases step with
  | openPipe result atPc answer => exact Or.inr ⟨result, rfl, atPc, rfl⟩
  | createProcess created atPc onWindows answer => simp at onWindows
  | _ => exact Or.inl rfl

theorem MainStep.holdsReadEnd {call : MainCall} (step : MainStep .linux process call next)
    (holds : process.HoldsReadEnd) : next.HoldsReadEnd := by
  rcases step.table_cases with unchanged | ⟨result, _, _, opened⟩
  · rwa [HoldsReadEnd, unchanged]
  · rw [HoldsReadEnd, HandleTable.holdsReadEnd_iff] at holds ⊢
    rcases holds with ⟨resource, resource_mem, isReadEnd⟩
    rcases List.mem_filter.mp resource_mem with ⟨table_mem, inheritable⟩
    refine ⟨resource, List.mem_filter.mpr ⟨?_, inheritable⟩, isReadEnd⟩
    rw [opened, GeneralPipe.openInto]
    split
    · exact table_mem
    · exact List.mem_cons_of_mem _ table_mem

theorem MainStep.ne_constructPipe {platform : Platform} {call : MainCall}
    (step : MainStep platform process call next) : next.main ≠ .constructPipe := by
  cases step <;> simp_all

/-- A process which takes a step is there with all it has open. -/
theorem MainStep.openHandles_eq {platform : Platform} {call : MainCall}
    (step : MainStep platform process call next) : process.openHandles = process.table := by
  cases step with
  | _ => simp only [openHandles, *]

theorem openHandles_holdsReadEnd (holds : process.openHandles.holdsReadEnd = true) :
    process.table.holdsReadEnd = true := by
  simp only [openHandles] at holds
  split at holds
  · simp [HandleTable.holdsReadEnd] at holds
  · simp [HandleTable.holdsReadEnd] at holds
  · exact HandleTable.holdsReadEnd_of_inherited holds
  · exact holds

/-- Where a reader thread runs, the process has the pipe open. -/
theorem WellFormed.holdsReadEnd_of_reader {platform : Platform}
    (wellFormed : process.WellFormed platform) (running : process.Running) {reader : Reader}
    (hasReader : process.reader = some reader) : process.openHandles.holdsReadEnd = true := by
  have inTable : process.table.holdsReadEnd = true := by
    rcases (wellFormed.relaying running hasReader).1 with ⟨pipe, _, _, resource_mem⟩
    rw [HandleTable.holdsReadEnd_iff]
    exact ⟨_, resource_mem, rfl⟩
  simp only [openHandles]
  split
  · rename_i exit atPc
    simp only [Process.WellFormed, atPc] at wellFormed
    simp [wellFormed.1] at hasReader
  · rename_i atPc
    exact absurd atPc running.1
  · rename_i atPc
    exact absurd atPc running.2
  · exact inTable

end Process

namespace System

/-- A process has the pipe open for reading; the program has what it inherited. -/
def forkedReadEndOpen (system : System) : Bool :=
  match system.forked with
  | none => false
  | some process =>
      (process.main != .replaced || system.program == .running) &&
        process.openHandles.holdsReadEnd

/-- Some process of the system has a read end of the pipe open. -/
def readEndOpen (system : System) : Bool :=
  system.host.openHandles.holdsReadEnd || system.forkedReadEndOpen

variable {system next : System} {event : Event}

theorem readEndOpen_iff (system : System) :
    system.readEndOpen = true ↔
      system.host.openHandles.holdsReadEnd = true ∨ system.forkedReadEndOpen = true := by
  simp [readEndOpen]

theorem forkedReadEndOpen_iff (system : System) :
    system.forkedReadEndOpen = true ↔
      ∃ process, system.forked = some process ∧
        (process.main = .replaced → system.program = .running) ∧
          process.openHandles.holdsReadEnd = true := by
  simp only [forkedReadEndOpen]
  cases system.forked with
  | none => simp
  | some process =>
      simp only [Bool.and_eq_true, Bool.or_eq_true, bne_iff_ne, beq_iff_eq, Option.some.injEq,
        exists_eq_left']
      apply and_congr_left
      intro _
      tauto

/-- The copy made by `fork` holds the read end, and the program runs in it. -/
structure ReadEndKept (system : System) : Prop where
  wellFormed : system.WellFormed .linux
  order : system.LaunchOrder
  forked : ∀ process, system.forked = some process → process.HoldsReadEnd
  running : system.program = .running →
    ∃ process, system.forked = some process ∧ process.main = .replaced

theorem readEndKept_initial (others : List Child) : (initial others).ReadEndKept where
  wellFormed := wellFormed_entering [] others
  order := launchOrder_entering [] others
  forked := by simp [initial, entering]
  running := by simp [initial, entering]

theorem ReadEndKept.launching (kept : system.ReadEndKept) (atPc : system.host.main = .launch) :
    system.host.HoldsReadEnd := by
  have wellFormed := kept.wellFormed.1
  simp only [Process.WellFormed, atPc] at wellFormed
  exact wellFormed.2.2.holdsReadEnd

theorem Step.readEndKept (step : Step .linux system event next) (kept : system.ReadEndKept) :
    next.ReadEndKept := by
  refine ⟨step.wellFormed kept.wellFormed, step.launchOrder kept.order, ?_, ?_⟩
  · cases step with
    | hostMain call process mainStep =>
        intro forked forkedEq
        rcases system.afterHost_forked process call with unchanged | ⟨pid, rfl, _, copied⟩
        · rw [unchanged] at forkedEq
          exact kept.forked forked forkedEq
        · cases mainStep with
          | fork pid atPc onLinux answer =>
              simp only [copied, Option.some.injEq] at forkedEq
              subst forked
              exact kept.launching atPc
    | forkedMain call process processNext present mainStep =>
        intro forked forkedEq
        simp only [afterForked_forked, Option.some.injEq] at forkedEq
        subst forked
        exact mainStep.holdsReadEnd (kept.forked process present)
    | reader who call process reader readerNext channel present running hasReader readerStep =>
        intro forked forkedEq
        cases who with
        | host => exact kept.forked forked forkedEq
        | forked =>
            simp only [setProcess, Option.some.injEq] at forkedEq
            subst forked
            exact kept.forked process present
    | programExit running =>
        rw [reportExit_forked]
        exact kept.forked
    | write bytes => exact kept.forked
    | keystroke key => exact kept.forked
    | childExit pid other => exact kept.forked
    | childReaped pid onLinux exited => exact kept.forked
  · cases step with
    | hostMain call process mainStep =>
        rcases afterHost_cases mainStep with ⟨programEq, forkedEq⟩ | ⟨atPc, _, launches⟩
        · rw [programEq, forkedEq]
          exact kept.running
        · -- before the launch there is no program
          have notStarted := (kept.order.early (by simp [atPc, MainPc.Early])).1
          have programEq : (system.afterHost process call).program = system.program := by
            cases mainStep with
            | fork pid atPc onLinux answer =>
                simp only [afterHost]
                split <;> rfl
            | createProcess created atPc onWindows answer => simp at onWindows
            | _ => simp_all
          rw [programEq, notStarted]
          simp
    | forkedMain call process processNext present mainStep =>
        intro running
        rw [afterForked_forked]
        rcases system.afterForked_program mainStep with unchanged | atExec
        · rw [unchanged] at running
          rcases kept.running running with ⟨same, sameEq, isReplaced⟩
          have processEq : process = same := Option.some.inj (present.symm.trans sameEq)
          subst processEq
          cases mainStep <;> simp_all
        · cases mainStep with
          | execReplaced atPc => exact ⟨_, rfl, rfl⟩
          | execReturned atPc =>
              have notStarted := (kept.order.exec process present atPc).1
              simp [afterForked, notStarted] at running
          | _ => simp_all
    | reader who call process reader readerNext channel present running hasReader readerStep =>
        cases who with
        | host => exact kept.running
        | forked =>
            intro programRunning
            rcases kept.running programRunning with ⟨same, sameEq, isReplaced⟩
            have processEq : process = same := Option.some.inj (present.symm.trans sameEq)
            subst processEq
            exact absurd isReplaced running.2
    | programExit running => simp
    | write bytes => exact kept.running
    | keystroke key => exact kept.running
    | childExit pid other => exact kept.running
    | childReaped pid onLinux exited => exact kept.running

/-- What the host has open changes by steps of its main thread only. -/
theorem openHandles_withOthers (process : Process) (reader : Option Reader)
    (children : List Child) :
    { process with reader := reader, children := children }.openHandles =
      process.openHandles :=
  rfl

/-- A step by which the host comes to hold the read end opens the pipe. -/
theorem Step.hostReadEnd_cases (step : Step .linux system event next)
    (holds : next.host.openHandles.holdsReadEnd = true) :
    system.host.openHandles.holdsReadEnd = true ∨
      ∃ result, event = .main .host (.openPipe result) ∧ 0 ≤ result := by
  rcases step.host_cases with ⟨call, process, rfl, mainStep, hostEq⟩ | ⟨_, reader, children, hostEq⟩
  · rw [hostEq] at holds
    have inTable := Process.openHandles_holdsReadEnd holds
    rw [mainStep.openHandles_eq]
    cases mainStep with
    | openPipe result atPc answer =>
        rcases answer with rfl | ⟨nonneg, _⟩
        · left
          simpa [GeneralPipe.openInto] using inTable
        · exact Or.inr ⟨result, rfl, nonneg⟩
    | createProcess created atPc onWindows answer => simp at onWindows
    | _ => exact Or.inl inTable
  · rw [hostEq, openHandles_withOthers] at holds
    exact Or.inl holds

/-- The copy and the program only inherit the read end. -/
theorem Step.forkedReadEnd_of_next (step : Step .linux system event next)
    (kept : system.ReadEndKept) (holds : next.forkedReadEndOpen = true) :
    system.readEndOpen = true := by
  have same : (next.forked = system.forked ∧
      (next.program = .running → system.program = .running)) → system.readEndOpen = true := by
    rintro ⟨forkedEq, programOf⟩
    rw [forkedReadEndOpen_iff] at holds
    rcases holds with ⟨process, present, isProgram, opened⟩
    rw [readEndOpen_iff, forkedReadEndOpen_iff]
    rw [forkedEq] at present
    exact Or.inr ⟨process, present, fun replaced => programOf (isProgram replaced), opened⟩
  cases step with
  | hostMain call process mainStep =>
      rcases afterHost_cases mainStep with ⟨programEq, forkedEq⟩ | ⟨atPc, _, _⟩
      · exact same ⟨forkedEq, by rw [programEq]; exact id⟩
      · -- the host is about to launch, so it holds the read end itself
        rw [readEndOpen_iff, mainStep.openHandles_eq]
        exact Or.inl (HandleTable.holdsReadEnd_of_inherited (kept.launching atPc))
  | forkedMain call process processNext present mainStep =>
      rw [readEndOpen_iff, forkedReadEndOpen_iff]
      refine Or.inr ⟨process, present, ?_, ?_⟩
      · intro replaced
        cases mainStep <;> simp_all
      · rw [mainStep.openHandles_eq]
        exact HandleTable.holdsReadEnd_of_inherited (kept.forked process present)
  | reader who call process reader readerNext channel present running hasReader readerStep =>
      cases who with
      | host => exact same ⟨rfl, id⟩
      | forked =>
          rw [forkedReadEndOpen_iff] at holds
          rcases holds with ⟨forked, forkedEq, isProgram, opened⟩
          simp only [setProcess, Option.some.injEq] at forkedEq
          subst forked
          rw [readEndOpen_iff, forkedReadEndOpen_iff]
          exact Or.inr ⟨process, present, isProgram, opened⟩
  | programExit running => exact same ⟨reportExit_forked _, by simp⟩
  | write bytes => exact same ⟨rfl, id⟩
  | keystroke key => exact same ⟨rfl, id⟩
  | childExit pid other => exact same ⟨rfl, id⟩
  | childReaped pid onLinux exited => exact same ⟨rfl, id⟩

/-- Only the host's opening of the pipe gives it a read end which it had not before. -/
theorem Step.readEndOpen_cases (step : Step .linux system event next) (kept : system.ReadEndKept)
    (opened : next.readEndOpen = true) :
    system.readEndOpen = true ∨
      ∃ result, event = .main .host (.openPipe result) ∧ 0 ≤ result := by
  rw [readEndOpen_iff] at opened
  rcases opened with byHost | byForked
  · rcases step.hostReadEnd_cases byHost with before | opens
    · exact Or.inl ((readEndOpen_iff system).mpr (Or.inl before))
    · exact Or.inr opens
  · exact Or.inl (step.forkedReadEnd_of_next kept byForked)

/-- Once the host has tried to open the pipe and nobody has it open, nobody opens it again. -/
theorem Step.readEndClosed (step : Step .linux system event next) (kept : system.ReadEndKept)
    (tried : system.host.main ≠ .constructPipe) (closed : system.readEndOpen = false) :
    next.host.main ≠ .constructPipe ∧ next.readEndOpen = false := by
  constructor
  · rcases step.host_cases with ⟨call, process, _, mainStep, hostEq⟩ | ⟨_, reader, children, hostEq⟩
    · rw [hostEq]
      exact mainStep.ne_constructPipe
    · rw [hostEq]
      exact tried
  · by_contra notClosed
    rcases step.readEndOpen_cases kept (by simpa using notClosed) with
      before | ⟨result, rfl, _⟩
    · simp [closed] at before
    · cases step with
      | hostMain call process mainStep =>
          cases mainStep with
          | openPipe result atPc answer => exact tried atPc

/-- As long as the program runs, the pipe has a reader, whatever has become of the relay. -/
theorem ReadEndKept.readEndOpen_of_running (kept : system.ReadEndKept)
    (running : system.program = .running) : system.readEndOpen = true := by
  rcases kept.running running with ⟨process, present, isReplaced⟩
  rw [readEndOpen_iff, forkedReadEndOpen_iff]
  refine Or.inr ⟨process, present, fun _ => running, ?_⟩
  simp only [Process.openHandles, isReplaced]
  exact kept.forked process present

/-- A reader thread runs only where the pipe is open. -/
theorem WellFormed.readEndOpen_of_reader {platform : Platform}
    (wellFormed : system.WellFormed platform) {who : Who} {process : Process}
    (present : system.process who = some process) (running : process.Running)
    {reader : Reader} (hasReader : process.reader = some reader) :
    system.readEndOpen = true := by
  rw [readEndOpen_iff]
  cases who with
  | host =>
      simp only [System.process, Option.some.injEq] at present
      subst process
      exact Or.inl (wellFormed.1.holdsReadEnd_of_reader running hasReader)
  | forked =>
      right
      rw [forkedReadEndOpen_iff]
      refine ⟨process, present, fun isReplaced => absurd isReplaced running.2, ?_⟩
      exact (wellFormed.2 process present).holdsReadEnd_of_reader running hasReader

end System

end MiddleMan
