import MiddleMan.MainThread

/-!
# How a call of `StartMiddleMan` ends, and what it leaves open

A call can come back to its caller in two ways only: it returns 1 if the pipe could not be
opened, or the exception of the `std::thread` constructor passes through it.  This file
says which it is, and what the caller's process has open then that it had not before.

The caller may have descriptors and handles of its own; `base` is its table before the call.
-/

namespace MiddleMan

namespace GeneralPipe

/-- What opening the pipe added to the table. -/
def resources (platform : Platform) (descriptor : ℤ) : List Resource :=
  if descriptor = invalidHandle then [] else [resource platform descriptor]

theorem openInto_eq (platform : Platform) (descriptor : ℤ) (table : HandleTable) :
    openInto platform descriptor table = resources platform descriptor ++ table := by
  unfold openInto resources
  split <;> rfl

/-- What is still open of it when the destructor has run. -/
def leaked (platform : Platform) (descriptor : ℤ) : List Resource :=
  match platform with
  | .windows => []
  | .linux => resources .linux descriptor

/-- The destructor closes the handle of the pipe and no other one, or nothing on Linux. -/
theorem destruct_append (platform : Platform) (descriptor : ℤ) {others base : HandleTable}
    (othersFree : HandleTable.Free others descriptor)
    (baseFree : descriptor = invalidHandle → HandleTable.Free base descriptor) :
    (construct platform descriptor).destruct platform
        (others ++ resources platform descriptor ++ base) =
      others ++ leaked platform descriptor ++ base := by
  cases platform with
  | linux => rfl
  | windows =>
      have notOthers : ∀ other ∈ others, ¬(other.value == descriptor) = true := by
        intro other other_mem
        simpa using othersFree other other_mem
      simp only [destruct, construct, HandleTable.closeHandle, leaked, List.append_nil,
        List.append_assoc]
      rw [List.eraseP_append_right _ notOthers]
      congr 1
      by_cases failed : descriptor = invalidHandle
      · rw [resources, if_pos failed, List.nil_append]
        apply List.eraseP_of_forall_not
        intro other other_mem
        simpa using baseFree failed other other_mem
      · rw [resources, if_neg failed]
        exact List.eraseP_cons_of_pos (by simp [resource])

end GeneralPipe

/-- What a call of the main thread has opened when the locals are gone. -/
def MainCall.leaks (platform : Platform) : MainCall → List Resource
  | .openPipe descriptor => GeneralPipe.leaked platform descriptor
  | .createProcess created => GeneralProcess.resources created
  | _ => []

/-- `Pipe` has passed the check, and the main thread has not started to leave. -/
def MainPc.PastCheck : MainPc → Prop
  | .launch | .execlp | .storePid _ | .startThread | .wait | .return0 => True
  | _ => False

/-- Behind `fork` or `CreateProcessA`, before the main thread starts to leave. -/
def MainPc.PastLaunch : MainPc → Prop
  | .execlp | .storePid _ | .startThread | .wait | .return0 => True
  | _ => False

namespace Process

/-- How the main thread comes back, by what its calls of the operating system answered. -/
def ComesBack (platform : Platform) (calls : List MainCall) (descriptor : ℤ)
    (created : Option (ℤ × ℤ)) : Exit → Prop
  | .returned code =>
      code = 0 ∨ code = 1 ∧ descriptor = invalidHandle ∧ created = none
  | .threw =>
      .startThread none ∈ calls ∧ descriptor ≠ invalidHandle ∧
        (platform = .windows → .createProcess created ∈ calls)

/--
What the table holds beyond `base`: the handles of the created process, and the pipe unless
its destructor has closed it.  `calls` are the calls of the main thread so far, and
`descriptor` and `created` are what the operating system answered to two of them.
-/
structure Opened (platform : Platform) (base : HandleTable) (calls : List MainCall)
    (descriptor : ℤ) (created : Option (ℤ × ℤ)) (process : Process) : Prop where
  table_eq : process.table =
    GeneralProcess.resources created ++
      (if process.pipe = .destroyed then GeneralPipe.leaked platform descriptor
        else GeneralPipe.resources platform descriptor) ++ base
  leaks_eq : calls.flatMap (MainCall.leaks platform) =
    GeneralProcess.resources created ++ GeneralPipe.leaked platform descriptor
  valid : OpenAnswer [] descriptor
  pipe_eq : ∀ pipe, process.pipe = .alive pipe →
    pipe = GeneralPipe.construct platform descriptor ∧ .pipe ∈ process.frame
  atStart : process.main = .constructPipe ↔ process.pipe = .unborn
  unopened : process.pipe = .unborn → descriptor = invalidHandle
  openPipe_mem : process.pipe ≠ .unborn → .openPipe descriptor ∈ calls
  onLinux : platform = .linux → created = none
  free : HandleTable.Free (GeneralProcess.resources created) descriptor
  nonneg : ∀ resource ∈ GeneralProcess.resources created, 0 ≤ resource.value
  unlaunched : process.main.Early → created = none
  pastCheck : process.main.PastCheck → descriptor ≠ invalidHandle
  pastLaunch : process.main.PastLaunch → platform = .windows → .createProcess created ∈ calls
  comesBack : ∀ exit, process.main = .unwind exit ∨ process.main = .left exit →
    ComesBack platform calls descriptor created exit
  closed : ∀ exit, process.main = .left exit → process.pipe = .destroyed

variable {platform : Platform} {base : HandleTable} {calls : List MainCall} {call : MainCall}
  {descriptor : ℤ} {created : Option (ℤ × ℤ)} {process next : Process}

theorem ComesBack.concat {exit : Exit}
    (comesBack : ComesBack platform calls descriptor created exit) (call : MainCall) :
    ComesBack platform (calls ++ [call]) descriptor created exit := by
  cases exit with
  | returned code => exact comesBack
  | threw =>
      rcases comesBack with ⟨threw, opens, createProcess_mem⟩
      exact ⟨List.mem_append_left _ threw, opens,
        fun onWindows => List.mem_append_left _ (createProcess_mem onWindows)⟩

theorem opened_entering (base : HandleTable) (children : List Child) :
    (entering base children).Opened platform base [] invalidHandle none where
  table_eq := rfl
  leaks_eq := by cases platform <;> rfl
  valid := Or.inl rfl
  pipe_eq := by simp [entering]
  atStart := by simp [entering]
  unopened := fun _ => rfl
  openPipe_mem := by simp [entering]
  onLinux := fun _ => rfl
  free := by simp [HandleTable.Free, GeneralProcess.resources]
  nonneg := by simp [GeneralProcess.resources]
  unlaunched := fun _ => rfl
  pastCheck := by simp [entering, MainPc.PastCheck]
  pastLaunch := by simp [entering, MainPc.PastLaunch]
  comesBack := by simp [entering]
  closed := by simp [entering]

/-! ## Steps which open and close nothing -/

theorem Opened.quiet (opened : process.Opened platform base calls descriptor created)
    (silent : call.leaks platform = []) (tableEq : next.table = process.table)
    (pipeEq : next.pipe = process.pipe) (frame : .pipe ∈ process.frame → .pipe ∈ next.frame)
    (started : process.main ≠ .constructPipe) (notStart : next.main ≠ .constructPipe)
    (unlaunched : next.main.Early → created = none)
    (pastCheck : next.main.PastCheck → descriptor ≠ invalidHandle)
    (pastLaunch : next.main.PastLaunch → platform = .windows → .createProcess created ∈ calls)
    (comesBack : ∀ exit, next.main = .unwind exit ∨ next.main = .left exit →
      ComesBack platform (calls ++ [call]) descriptor created exit)
    (closed : ∀ exit, next.main = .left exit → process.pipe = .destroyed) :
    next.Opened platform base (calls ++ [call]) descriptor created where
  table_eq := by
    rw [tableEq, pipeEq]
    exact opened.table_eq
  leaks_eq := by
    rw [List.flatMap_append, opened.leaks_eq]
    simp [silent]
  valid := opened.valid
  pipe_eq := by
    intro pipe alive
    rw [pipeEq] at alive
    exact ⟨(opened.pipe_eq pipe alive).1, frame (opened.pipe_eq pipe alive).2⟩
  atStart := by
    rw [pipeEq, ← opened.atStart]
    exact iff_of_false notStart started
  unopened := by
    rw [pipeEq]
    exact opened.unopened
  openPipe_mem := by
    rw [pipeEq]
    exact fun born => List.mem_append_left _ (opened.openPipe_mem born)
  onLinux := opened.onLinux
  free := opened.free
  nonneg := opened.nonneg
  unlaunched := unlaunched
  pastCheck := pastCheck
  pastLaunch := fun past onWindows => List.mem_append_left _ (pastLaunch past onWindows)
  comesBack := comesBack
  closed := by
    rw [pipeEq]
    exact closed

/-- A step inside the body of `StartMiddleMan`, behind the check. -/
theorem Opened.goesOn (opened : process.Opened platform base calls descriptor created)
    (silent : call.leaks platform = []) (tableEq : next.table = process.table)
    (pipeEq : next.pipe = process.pipe) (frame : .pipe ∈ process.frame → .pipe ∈ next.frame)
    (past : process.main.PastCheck) (nextPast : next.main.PastCheck)
    (launched : ¬next.main.Early)
    (pastLaunch : next.main.PastLaunch → process.main.PastLaunch ∨ platform = .linux) :
    next.Opened platform base (calls ++ [call]) descriptor created := by
  apply opened.quiet silent tableEq pipeEq frame
  · intro atPc
    simp [atPc, MainPc.PastCheck] at past
  · intro atPc
    simp [atPc, MainPc.PastCheck] at nextPast
  · exact fun early => absurd early launched
  · exact fun _ => opened.pastCheck past
  · intro isPast onWindows
    rcases pastLaunch isPast with wasPast | onLinux
    · exact opened.pastLaunch wasPast onWindows
    · simp [onLinux] at onWindows
  · rintro exit (atPc | atPc) <;> simp [atPc, MainPc.PastCheck] at nextPast
  · intro exit atPc
    simp [atPc, MainPc.PastCheck] at nextPast

/-- A step which starts to leave the scope, or goes on leaving it. -/
theorem Opened.leaves (opened : process.Opened platform base calls descriptor created)
    (silent : call.leaks platform = []) (tableEq : next.table = process.table)
    (pipeEq : next.pipe = process.pipe) (frame : .pipe ∈ process.frame → .pipe ∈ next.frame)
    (started : process.main ≠ .constructPipe) {exit : Exit}
    (leaving : next.main = .unwind exit ∨ next.main = .left exit ∧ process.pipe = .destroyed)
    (comesBack : ComesBack platform (calls ++ [call]) descriptor created exit) :
    next.Opened platform base (calls ++ [call]) descriptor created := by
  apply opened.quiet silent tableEq pipeEq frame started
  · rcases leaving with atPc | ⟨atPc, _⟩ <;> simp [atPc]
  · rcases leaving with atPc | ⟨atPc, _⟩ <;> simp [atPc, MainPc.Early]
  · rcases leaving with atPc | ⟨atPc, _⟩ <;> simp [atPc, MainPc.PastCheck]
  · rcases leaving with atPc | ⟨atPc, _⟩ <;> simp [atPc, MainPc.PastLaunch]
  · intro other atOther
    have exitEq : exit = other := by
      rcases leaving with atPc | ⟨atPc, _⟩ <;> simpa [atPc] using atOther
    subst exitEq
    exact comesBack
  · intro other atOther
    rcases leaving with atPc | ⟨_, gone⟩
    · simp [atPc] at atOther
    · exact gone

/-- A step after which the main thread neither goes on nor leaves. -/
theorem Opened.ends (opened : process.Opened platform base calls descriptor created)
    (silent : call.leaks platform = []) (tableEq : next.table = process.table)
    (pipeEq : next.pipe = process.pipe) (frameEq : next.frame = process.frame)
    (started : process.main ≠ .constructPipe)
    (atEnd : next.main = .replaced ∨ next.main = .terminating ∨ next.main = .dead) :
    next.Opened platform base (calls ++ [call]) descriptor created := by
  apply opened.quiet silent tableEq pipeEq (by rw [frameEq]; exact id) started
  all_goals
    rcases atEnd with atPc | atPc | atPc <;>
      simp [atPc, MainPc.Early, MainPc.PastCheck, MainPc.PastLaunch]

/-- The exit of a step which goes on leaving. -/
theorem Opened.comesBack_of_unwind
    (opened : process.Opened platform base calls descriptor created) {exit : Exit}
    (atPc : process.main = .unwind exit) (call : MainCall) :
    ComesBack platform (calls ++ [call]) descriptor created exit :=
  (opened.comesBack exit (Or.inl atPc)).concat call

/-! ## Steps which open or close something -/

theorem Opened.openPipe (opened : process.Opened platform base calls descriptor created)
    {result : ℤ} (atPc : process.main = .constructPipe) (answer : OpenAnswer process.table result) :
    Opened platform base (calls ++ [.openPipe result]) result none
      { process with
        main := .checkPipe
        frame := .pipe :: process.frame
        pipe := .alive (GeneralPipe.construct platform result)
        table := GeneralPipe.openInto platform result process.table } := by
  have unborn := opened.atStart.mp atPc
  have failed := opened.unopened unborn
  have notCreated := opened.unlaunched (by simp [atPc, MainPc.Early])
  subst failed notCreated
  have tableEq : process.table = base := by
    simpa [unborn, GeneralPipe.resources, GeneralProcess.resources] using opened.table_eq
  constructor
  case table_eq => simp [tableEq, GeneralPipe.openInto_eq, GeneralProcess.resources]
  case leaks_eq =>
    have nothing : GeneralPipe.leaked platform invalidHandle = [] := by cases platform <;> rfl
    rw [List.flatMap_append, opened.leaks_eq, nothing]
    simp [MainCall.leaks, GeneralProcess.resources]
  case valid =>
    rcases answer with failed | ⟨nonneg, _⟩
    · exact Or.inl failed
    · exact Or.inr ⟨nonneg, by simp [HandleTable.Free]⟩
  case pipe_eq =>
    intro pipe alive
    exact ⟨(Lifetime.alive.inj alive).symm, List.mem_cons_self⟩
  case atStart => simp
  case unopened => simp
  case openPipe_mem => simp
  case onLinux => simp
  case free => simp [HandleTable.Free, GeneralProcess.resources]
  case nonneg => simp [GeneralProcess.resources]
  case unlaunched => simp
  case pastCheck => simp [MainPc.PastCheck]
  case pastLaunch => simp [MainPc.PastLaunch]
  case comesBack => simp
  case closed => simp

/-- The handles of a created process are new ones. -/
theorem forall_resources_of_answer {table : HandleTable} {children : List Child}
    (answer : CreateProcessAnswer table children created) {resource : Resource}
    (resource_mem : resource ∈ GeneralProcess.resources created) :
    0 ≤ resource.value ∧ table.Free resource.value := by
  rcases created with _ | ⟨hProcess, hThread⟩
  · simp [GeneralProcess.resources] at resource_mem
  · rcases answer with ⟨processNonneg, threadNonneg, _, processFree, threadFree, _⟩
    simp only [GeneralProcess.resources, List.mem_cons, List.not_mem_nil, or_false]
      at resource_mem
    rcases resource_mem with rfl | rfl
    · exact ⟨processNonneg, processFree⟩
    · exact ⟨threadNonneg, threadFree⟩

theorem Opened.createProcess (opened : process.Opened platform base calls descriptor created)
    (wellFormed : process.WellFormed platform) {handles : Option (ℤ × ℤ)}
    (atPc : process.main = .launch) (onWindows : platform = .windows)
    (answer : CreateProcessAnswer process.table process.children handles) :
    Opened platform base (calls ++ [.createProcess handles]) descriptor handles
      { process with
        main := .startThread
        frame := .process :: process.frame
        process := .alive (GeneralProcess.constructWindows handles)
        table := GeneralProcess.resources handles ++ process.table
        children := adoptCreated handles process.children } := by
  have opens := opened.pastCheck (by simp [atPc, MainPc.PastCheck])
  have notCreated := opened.unlaunched (by simp [atPc, MainPc.Early])
  simp only [WellFormed, atPc] at wellFormed
  rcases wellFormed with ⟨frameEq, _, pipe, alive, _, _⟩
  have tableEq : process.table = GeneralPipe.resources platform descriptor ++ base := by
    simpa [alive, notCreated, GeneralProcess.resources] using opened.table_eq
  have isOpen : GeneralPipe.resource platform descriptor ∈ process.table := by
    simp [tableEq, GeneralPipe.resources, opens]
  constructor
  case table_eq => simp [alive, tableEq]
  case leaks_eq =>
    rw [List.flatMap_append, opened.leaks_eq, notCreated]
    simp [onWindows, GeneralPipe.leaked, MainCall.leaks, GeneralProcess.resources]
  case valid => exact opened.valid
  case pipe_eq =>
    intro same sameAlive
    exact ⟨(opened.pipe_eq same sameAlive).1, by simp [frameEq]⟩
  case atStart => simp [alive]
  case unopened => simp [alive]
  case openPipe_mem =>
    intro born
    exact List.mem_append_left _ (opened.openPipe_mem (by simp [alive]))
  case onLinux => simp [onWindows]
  case free =>
    intro resource resource_mem
    exact Ne.symm ((forall_resources_of_answer answer resource_mem).2 _ isOpen)
  case nonneg =>
    intro resource resource_mem
    exact (forall_resources_of_answer answer resource_mem).1
  case unlaunched => simp [MainPc.Early]
  case pastCheck => exact fun _ => opens
  case pastLaunch => simp
  case comesBack => simp
  case closed => simp

theorem Opened.destroyPipe (opened : process.Opened platform base calls descriptor created)
    (baseValid : ∀ resource ∈ base, 0 ≤ resource.value) {exit : Exit}
    {frame : List LocalVariable} {pipe : GeneralPipe} (atPc : process.main = .unwind exit)
    (alive : process.pipe = .alive pipe) :
    Opened platform base (calls ++ [.destroy]) descriptor created
      { process with
        frame := frame
        pipe := .destroyed
        table := pipe.destruct platform process.table } := by
  have pipeEq := (opened.pipe_eq pipe alive).1
  have tableEq : process.table =
      GeneralProcess.resources created ++ GeneralPipe.resources platform descriptor ++
        base := by
    simpa [alive] using opened.table_eq
  constructor
  case table_eq =>
    simp only [pipeEq, tableEq, if_true]
    apply GeneralPipe.destruct_append platform descriptor opened.free
    rintro rfl resource resource_mem isInvalid
    have nonneg := baseValid resource resource_mem
    rw [isInvalid] at nonneg
    simp [invalidHandle] at nonneg
  case leaks_eq =>
    rw [List.flatMap_append, opened.leaks_eq]
    simp [MainCall.leaks]
  case valid => exact opened.valid
  case pipe_eq => simp
  case atStart => simp [atPc]
  case unopened => simp
  case openPipe_mem =>
    intro _
    exact List.mem_append_left _ (opened.openPipe_mem (by simp [alive]))
  case onLinux => exact opened.onLinux
  case free => exact opened.free
  case nonneg => exact opened.nonneg
  case unlaunched => simp [atPc, MainPc.Early]
  case pastCheck => simp [atPc, MainPc.PastCheck]
  case pastLaunch => simp [atPc, MainPc.PastLaunch]
  case comesBack =>
    intro other leaving
    have exitEq : exit = other := by simpa [atPc] using leaving
    subst exitEq
    exact opened.comesBack_of_unwind atPc _
  case closed => simp

/-! ## All steps -/

/-- The check lets the main thread go on exactly if the pipe was opened. -/
theorem Opened.successful_iff (opened : process.Opened platform base calls descriptor created)
    {pipe : GeneralPipe} (alive : process.pipe = .alive pipe) :
    pipe.successfullyConstructed = true ↔ descriptor ≠ invalidHandle := by
  rw [(opened.pipe_eq pipe alive).1]
  exact GeneralPipe.construct_successful_iff platform opened.valid

/-- Behind the last local the pipe is gone. -/
theorem Opened.pipe_destroyed (opened : process.Opened platform base calls descriptor created)
    {exit : Exit} (atPc : process.main = .unwind exit) (frameEq : process.frame = []) :
    process.pipe = .destroyed := by
  cases pipeEq : process.pipe with
  | unborn => simp [opened.atStart.mpr pipeEq] at atPc
  | alive pipe => simpa [frameEq] using (opened.pipe_eq pipe pipeEq).2
  | destroyed => rfl

theorem MainStep.opened (step : MainStep platform process call next)
    (wellFormed : process.WellFormed platform) (baseValid : ∀ resource ∈ base, 0 ≤ resource.value)
    (opened : process.Opened platform base calls descriptor created) :
    ∃ descriptorNext createdNext,
      next.Opened platform base (calls ++ [call]) descriptorNext createdNext := by
  cases step with
  | openPipe result atPc answer => exact ⟨result, none, opened.openPipe atPc answer⟩
  | createProcess handles atPc onWindows answer =>
      exact ⟨descriptor, handles, opened.createProcess wellFormed atPc onWindows answer⟩
  | destroyPipe exit frame pipe atPc frameEq alive =>
      exact ⟨descriptor, created, opened.destroyPipe baseValid atPc alive⟩
  | pipeFailed pipe atPc alive notConstructed =>
      have failed : descriptor = invalidHandle := by
        by_contra opens
        simp [(opened.successful_iff alive).mpr opens] at notConstructed
      have notCreated := opened.unlaunched (by simp [atPc, MainPc.Early])
      exact ⟨descriptor, created, opened.leaves rfl rfl rfl id (by simp [atPc]) (Or.inl rfl)
        (Or.inr ⟨rfl, failed, notCreated⟩)⟩
  | pipeOpened pipe atPc alive constructed =>
      have opens := (opened.successful_iff alive).mp constructed
      have notCreated := opened.unlaunched (by simp [atPc, MainPc.Early])
      exact ⟨descriptor, created, opened.quiet rfl rfl rfl id (by simp [atPc]) (by simp)
        (fun _ => notCreated) (fun _ => opens) (by simp [MainPc.PastLaunch]) (by simp) (by simp)⟩
  | fork pid atPc onLinux answer =>
      exact ⟨descriptor, created, opened.goesOn rfl rfl rfl id (by simp [atPc, MainPc.PastCheck])
        trivial id (fun _ => Or.inr onLinux)⟩
  | execReplaced atPc =>
      exact ⟨descriptor, created, opened.ends rfl rfl rfl rfl (by simp [atPc]) (Or.inl rfl)⟩
  | execReturned atPc =>
      exact ⟨descriptor, created, opened.goesOn rfl rfl rfl id (by simp [atPc, MainPc.PastCheck])
        trivial id (fun _ => Or.inl (by simp [atPc, MainPc.PastLaunch]))⟩
  | storePid pid atPc =>
      exact ⟨descriptor, created, opened.goesOn rfl rfl rfl (List.mem_cons_of_mem _)
        (by simp [atPc, MainPc.PastCheck]) trivial id
        (fun _ => Or.inl (by simp [atPc, MainPc.PastLaunch]))⟩
  | threadStarted buffer atPc =>
      exact ⟨descriptor, created, opened.goesOn rfl rfl rfl (List.mem_cons_of_mem _)
        (by simp [atPc, MainPc.PastCheck]) trivial id
        (fun _ => Or.inl (by simp [atPc, MainPc.PastLaunch]))⟩
  | threadThrew atPc =>
      have opens := opened.pastCheck (by simp [atPc, MainPc.PastCheck])
      have launched := opened.pastLaunch (by simp [atPc, MainPc.PastLaunch])
      exact ⟨descriptor, created, opened.leaves rfl rfl rfl id (by simp [atPc]) (Or.inl rfl)
        ⟨by simp, opens, fun onWindows => List.mem_append_left _ (launched onWindows)⟩⟩
  | wait launched answer children atPc alive returns =>
      exact ⟨descriptor, created, opened.goesOn rfl rfl rfl id (by simp [atPc, MainPc.PastCheck])
        trivial id (fun _ => Or.inl (by simp [atPc, MainPc.PastLaunch]))⟩
  | return0 atPc =>
      exact ⟨descriptor, created, opened.leaves rfl rfl rfl id (by simp [atPc]) (Or.inl rfl)
        (Or.inl rfl)⟩
  | destroyJoinable exit frame thread atPc frameEq alive joinable =>
      exact ⟨descriptor, created, opened.ends rfl rfl rfl rfl (by simp [atPc])
        (Or.inr (Or.inl rfl))⟩
  | destroyThread exit frame thread atPc frameEq alive notJoinable =>
      exact ⟨descriptor, created, opened.leaves rfl rfl rfl (by simp [frameEq]) (by simp [atPc])
        (Or.inl atPc) (opened.comesBack_of_unwind atPc _)⟩
  | destroyProcess exit frame launched atPc frameEq alive =>
      exact ⟨descriptor, created, opened.leaves rfl rfl rfl (by simp [frameEq]) (by simp [atPc])
        (Or.inl atPc) (opened.comesBack_of_unwind atPc _)⟩
  | leave exit atPc frameEq =>
      have gone := opened.pipe_destroyed atPc frameEq
      exact ⟨descriptor, created, opened.leaves rfl rfl rfl id (by simp [atPc])
        (Or.inr ⟨rfl, gone⟩) (opened.comesBack_of_unwind atPc _)⟩
  | die atPc =>
      exact ⟨descriptor, created, opened.ends rfl rfl rfl rfl (by simp [atPc])
        (Or.inr (Or.inr rfl))⟩

/-- What the reader thread and the other processes do opens and closes nothing. -/
theorem Opened.withOthers (opened : process.Opened platform base calls descriptor created)
    (reader : Option Reader) (children : List Child) :
    Opened platform base calls descriptor created
      { process with reader := reader, children := children } :=
  ⟨opened.table_eq, opened.leaks_eq, opened.valid, opened.pipe_eq, opened.atStart,
    opened.unopened, opened.openPipe_mem, opened.onLinux, opened.free, opened.nonneg,
    opened.unlaunched, opened.pastCheck, opened.pastLaunch, opened.comesBack, opened.closed⟩

/-- The table of a process which has come back. -/
theorem Opened.table_of_left (opened : process.Opened platform base calls descriptor created)
    {exit : Exit} (back : process.main = .left exit) :
    process.table = calls.flatMap (MainCall.leaks platform) ++ base := by
  rw [opened.leaks_eq, opened.table_eq, if_pos (opened.closed exit back)]

/-- What the caller of a call which has come back finds. -/
theorem Opened.left_cases (opened : process.Opened platform base calls descriptor created)
    (wellFormed : process.WellFormed platform) {exit : Exit} (back : process.main = .left exit) :
    (exit = .returned 1 ∧ descriptor = invalidHandle ∧ process.table = base) ∨
      (exit = .threw ∧ .startThread none ∈ calls ∧ descriptor ≠ invalidHandle ∧
        (platform = .windows → .createProcess created ∈ calls) ∧
          process.table =
            GeneralProcess.resources created ++ GeneralPipe.leaked platform descriptor ++
              base) := by
  have tableEq := opened.table_eq
  rw [if_pos (opened.closed exit back)] at tableEq
  simp only [WellFormed, back] at wellFormed
  have comesBack := opened.comesBack exit (Or.inr back)
  cases exit with
  | returned code =>
      rcases comesBack with rfl | ⟨rfl, rfl, rfl⟩
      · exact absurd rfl wellFormed.2
      · refine Or.inl ⟨rfl, rfl, ?_⟩
        cases platform <;>
          simpa [GeneralProcess.resources, GeneralPipe.leaked, GeneralPipe.resources]
            using tableEq
  | threw =>
      rcases comesBack with ⟨threw, opens, createProcess_mem⟩
      exact Or.inr ⟨rfl, threw, opens, createProcess_mem, tableEq⟩

end Process

namespace System

variable {platform : Platform} {base : HandleTable} {others : List Child}

/-- The calls of the host's main thread. -/
def Event.hostCall? : Event → Option MainCall
  | .main .host call => some call
  | _ => none

theorem opened_of_run (baseValid : ∀ resource ∈ base, 0 ≤ resource.value)
    {events : List Event} {final : System}
    (runs : Transition.run (step platform) (entering base others) events = some final) :
    ∃ descriptor created,
      final.host.Opened platform base (events.filterMap Event.hostCall?) descriptor created := by
  have known := Transition.history_invariant (fun events system =>
    system.WellFormed platform ∧ ∃ descriptor created,
      system.host.Opened platform base (events.filterMap Event.hostCall?) descriptor created)
    ⟨wellFormed_entering base others, invalidHandle, none, Process.opened_entering base others⟩
    ?_ runs
  · exact known.2
  · rintro history system event next ⟨wellFormed, descriptor, created, opened⟩ stepEq
    have step := step_sound stepEq
    refine ⟨step.wellFormed wellFormed, ?_⟩
    rw [List.filterMap_append]
    rcases step.host_cases with ⟨call, process, rfl, mainStep, hostEq⟩ | ⟨notMain, unchanged⟩
    · rw [hostEq]
      exact mainStep.opened wellFormed.1 baseValid opened
    · rcases unchanged with ⟨reader, children, hostEq⟩
      have noCall : [event].filterMap Event.hostCall? = [] := by
        cases event with
        | main who call =>
            cases who with
            | host => exact absurd rfl (notMain call)
            | forked => rfl
        | _ => rfl
      rw [hostEq, noCall, List.append_nil]
      exact ⟨descriptor, created, opened.withOthers reader children⟩

theorem main_mem_of_hostCall {events : List Event} {call : MainCall}
    (call_mem : call ∈ events.filterMap Event.hostCall?) : .main .host call ∈ events := by
  rcases List.mem_filterMap.mp call_mem with ⟨event, event_mem, isCall⟩
  unfold Event.hostCall? at isCall
  split at isCall
  · simp only [Option.some.injEq] at isCall
    subst call
    exact event_mem
  · simp at isCall

/--
A call which comes back has either returned 1, after the pipe could not be opened, and has
left the caller's table as it was; or the `std::thread` constructor threw, and what
`CreateProcessA` has opened stays open on Windows, and the descriptor of the pipe on Linux.
-/
theorem comesBack_of_run (baseValid : ∀ resource ∈ base, 0 ≤ resource.value)
    {events : List Event} {final : System}
    (runs : Transition.run (step platform) (entering base others) events = some final)
    {exit : Exit} (back : final.host.main = .left exit) :
    (exit = .returned 1 ∧ .main .host (.openPipe invalidHandle) ∈ events ∧
        final.host.table = base) ∨
      (exit = .threw ∧ .main .host (.startThread none) ∈ events ∧
        ∃ descriptor created, descriptor ≠ invalidHandle ∧
          .main .host (.openPipe descriptor) ∈ events ∧
            (platform = .windows → .main .host (.createProcess created) ∈ events) ∧
              (platform = .linux → created = none) ∧
                final.host.table =
                  GeneralProcess.resources created ++ GeneralPipe.leaked platform descriptor ++
                    base) := by
  rcases opened_of_run baseValid runs with ⟨descriptor, created, opened⟩
  have openPipe_mem : .main .host (.openPipe descriptor) ∈ events := by
    apply main_mem_of_hostCall
    apply opened.openPipe_mem
    simp [opened.closed exit back]
  rcases opened.left_cases (wellFormed_of_run runs).1 back with
    ⟨rfl, rfl, unchanged⟩ | ⟨rfl, threw, opens, createProcess_mem, tableEq⟩
  · exact Or.inl ⟨rfl, openPipe_mem, unchanged⟩
  · exact Or.inr ⟨rfl, main_mem_of_hostCall threw, descriptor, created, opens, openPipe_mem,
      fun onWindows => main_mem_of_hostCall (createProcess_mem onWindows), opened.onLinux,
      tableEq⟩

/-- On Windows, called by a process which has a handle of its own. -/
def throwingEvents : List Event :=
  [.main .host (.openPipe 4), .main .host .checkPipe,
    .main .host (.createProcess (some (8, 12))), .main .host (.startThread none),
    .main .host .destroy, .main .host .destroy, .main .host .destroy]

theorem comesBack_of_run_throwing :
    ∃ final,
      Transition.run (step .windows) (entering [GeneralPipe.resource .windows 3] [])
          throwingEvents = some final ∧
        ((Exit.threw = .returned 1 ∧ .main .host (.openPipe invalidHandle) ∈ throwingEvents ∧
            final.host.table = [GeneralPipe.resource .windows 3]) ∨
          (Exit.threw = .threw ∧ .main .host (.startThread none) ∈ throwingEvents ∧
            ∃ descriptor created, descriptor ≠ invalidHandle ∧
              .main .host (.openPipe descriptor) ∈ throwingEvents ∧
                (Platform.windows = .windows →
                  .main .host (.createProcess created) ∈ throwingEvents) ∧
                  (Platform.windows = .linux → created = none) ∧
                    final.host.table =
                      GeneralProcess.resources created ++
                        GeneralPipe.leaked .windows descriptor ++
                          [GeneralPipe.resource .windows 3])) := by
  refine ⟨_, rfl, ?_⟩
  exact @comesBack_of_run .windows [GeneralPipe.resource .windows 3] []
    (by simp [GeneralPipe.resource]) throwingEvents _ rfl .threw rfl

end System

end MiddleMan
