import MiddleMan.Lifetimes
import MiddleMan.Handles

/-!
# The locals of `StartMiddleMan` as a history of objects

A process executing `StartMiddleMan` constructs and destroys `Pipe` and `Process` in the
order of a history of `Ledger`, with the same table and the same objects alive.  What is
proved about histories therefore holds of it: until it destroys the first local, the
process has open exactly what its locals opened.
-/

namespace MiddleMan

namespace Ledger

/-- A history whose events are `events` ends with this table and these objects. -/
def Reaches (platform : Platform) (events : List Event) (table : HandleTable)
    (alive : List Object) : Prop :=
  ∃ ledger, Transition.run (step platform) initial events = some ledger ∧
    ledger.table = table ∧ ledger.alive = alive

variable {platform : Platform} {events : List Event} {table : HandleTable} {alive : List Object}

theorem NoDelete.concat (noDelete : NoDelete events) {event : Event}
    (constructs : ∀ index, event ≠ .delete index) : NoDelete (events ++ [event]) := by
  intro other other_mem
  rcases List.mem_append.mp other_mem with before | last
  · exact noDelete other before
  · obtain rfl := List.mem_singleton.mp last
    exact constructs

theorem reaches_nil : Reaches platform [] [] [] :=
  ⟨initial, rfl, rfl, rfl⟩

theorem Reaches.exact (reaches : Reaches platform events table alive)
    (noDelete : NoDelete events) : Ownership.Exact (Object.resources platform) table alive := by
  rcases reaches with ⟨ledger, runs, rfl, rfl⟩
  exact owned_of_run runs noDelete

theorem Reaches.concat (reaches : Reaches platform events table alive) {event : Event}
    {tableNext : HandleTable} {aliveNext : List Object}
    (stepEq : ∀ ledger : Ledger, ledger.table = table → ledger.alive = alive →
      ∃ next, ledger.step platform event = some next ∧ next.table = tableNext ∧
        next.alive = aliveNext) :
    Reaches platform (events ++ [event]) tableNext aliveNext := by
  rcases reaches with ⟨ledger, runs, tableEq, aliveEq⟩
  rcases stepEq ledger tableEq aliveEq with ⟨next, nextEq, nextTable, nextAlive⟩
  exact ⟨next, Transition.run_concat_iff.mpr ⟨ledger, runs, nextEq⟩, nextTable, nextAlive⟩

theorem Reaches.newPipe (reaches : Reaches platform events table alive) {result : ℤ}
    (answer : OpenAnswer table result) :
    Reaches platform (events ++ [.newPipe result]) (GeneralPipe.openInto platform result table)
      (.generalPipe (GeneralPipe.construct platform result) :: alive) := by
  apply reaches.concat
  rintro ledger rfl rfl
  exact ⟨_, if_pos answer, rfl, rfl⟩

theorem Reaches.newForked (reaches : Reaches .linux events table alive) {pid : ℤ}
    (returned : -1 ≤ pid) :
    Reaches .linux (events ++ [.newProcess (.forked pid false)]) table
      (.generalProcess (GeneralProcess.constructLinux pid) :: alive) := by
  apply reaches.concat
  rintro ledger rfl rfl
  exact ⟨_, if_pos ⟨rfl, returned, by simp⟩, rfl, rfl⟩

theorem Reaches.newCreated (reaches : Reaches .windows events table alive)
    {handles : Option (ℤ × ℤ)} (answer : CreateProcessAnswer table [] handles) :
    Reaches .windows (events ++ [.newProcess (.created handles)])
      (GeneralProcess.resources handles ++ table)
      (.generalProcess (GeneralProcess.constructWindows handles) :: alive) := by
  apply reaches.concat
  rintro ledger rfl rfl
  exact ⟨_, if_pos ⟨rfl, answer⟩, rfl, rfl⟩

theorem Reaches.delete {object : Object}
    (reaches : Reaches platform events table (object :: alive)) :
    Reaches platform (events ++ [.delete 0]) (object.destruct platform table) alive := by
  apply reaches.concat
  rintro ledger rfl aliveEq
  refine ⟨{ ledger with table := object.destruct platform ledger.table, alive := alive }, ?_,
    rfl, rfl⟩
  simp [step, aliveEq]

end Ledger

namespace Process

/-- The object which a local variable holds, if it is one of the two classes. -/
def object? (process : Process) : LocalVariable → Option Object
  | .pipe =>
      match process.pipe with
      | .alive pipe => some (.generalPipe pipe)
      | .unborn | .destroyed => none
  | .process =>
      match process.process with
      | .alive launched => some (.generalProcess launched)
      | .unborn | .destroyed => none
  | .pipeReader => none

/-- The live objects of the frame, the last constructed first. -/
def objects (process : Process) : List Object :=
  process.frame.filterMap process.object?

/-- The main thread has begun to destroy the locals. -/
def Destroying (process : Process) : Prop :=
  .pipeReader ∉ process.frame ∧
    ((∃ exit, process.main = .unwind exit) ∨ ∃ exit, process.main = .left exit)

/-- The process did what some history of its objects does. -/
structure HasHistory (platform : Platform) (process : Process) : Prop where
  wellFormed : process.WellFormed platform
  suffix : process.frame <:+ [.pipeReader, .process, .pipe]
  stored : ∀ pid, process.main = .storePid pid → platform = .linux ∧ -1 ≤ pid
  onLinux : process.main = .execlp → platform = .linux
  history : ∃ events, Ledger.Reaches platform events process.table process.objects ∧
    (Ledger.NoDelete events ∨ process.Destroying)

variable {platform : Platform} {process next : Process}

theorem hasHistory_initial (children : List Child) :
    (initial children).HasHistory platform where
  wellFormed := wellFormed_entering [] children
  suffix := List.nil_suffix
  stored := by simp [initial, entering]
  onLinux := by simp [initial, entering]
  history := ⟨[], Ledger.reaches_nil, Or.inl (by simp [Ledger.NoDelete])⟩

/-- Before the locals are destroyed, the history destroys nothing. -/
theorem HasHistory.constructed (hasHistory : process.HasHistory platform)
    (notDestroying : ¬process.Destroying) :
    ∃ events, Ledger.Reaches platform events process.table process.objects ∧
      Ledger.NoDelete events := by
  rcases hasHistory.history with ⟨events, reaches, noDelete | destroying⟩
  · exact ⟨events, reaches, noDelete⟩
  · exact absurd destroying notDestroying

theorem not_mem_of_suffix {first : LocalVariable} {frame : List LocalVariable}
    (suffix : first :: frame <:+ [.pipeReader, .process, .pipe]) :
    .pipeReader ∉ frame ∧ first ∉ frame := by
  rcases List.suffix_cons_iff.mp suffix with isAll | suffix
  · simp only [List.cons.injEq] at isAll
    rcases isAll with ⟨rfl, rfl⟩
    simp
  · rcases List.suffix_cons_iff.mp suffix with isRest | suffix
    · simp only [List.cons.injEq] at isRest
      rcases isRest with ⟨rfl, rfl⟩
      simp
    · rcases List.suffix_cons_iff.mp suffix with isLast | suffix
      · simp only [List.cons.injEq] at isLast
        rcases isLast with ⟨rfl, rfl⟩
        simp
      · simp at suffix

theorem HasHistory.quiet (hasHistory : process.HasHistory platform)
    (nextWellFormed : next.WellFormed platform) (tableEq : next.table = process.table)
    (objectsEq : next.objects = process.objects)
    (suffix : next.frame <:+ [.pipeReader, .process, .pipe])
    (stored : ∀ pid, next.main = .storePid pid → platform = .linux ∧ -1 ≤ pid)
    (onLinux : next.main = .execlp → platform = .linux)
    (destroying : process.Destroying → next.Destroying) : next.HasHistory platform := by
  rcases hasHistory.history with ⟨events, reaches, noDelete⟩
  refine ⟨nextWellFormed, suffix, stored, onLinux, events, ?_, noDelete.imp_right destroying⟩
  rw [tableEq, objectsEq]
  exact reaches

theorem objects_eq_cons {first : LocalVariable} {frame : List LocalVariable} {object : Object}
    (frameEq : process.frame = first :: frame) (holds : process.object? first = some object)
    (nextFrame : next.frame = frame) (absent : first ∉ frame)
    (others : ∀ name, name ≠ first → next.object? name = process.object? name) :
    process.objects = object :: next.objects := by
  rw [objects, objects, frameEq, nextFrame, List.filterMap_cons_some holds]
  congr 1
  apply List.filterMap_congr
  intro name name_mem
  refine (others name ?_).symm
  rintro rfl
  exact absent name_mem

theorem HasHistory.destroy (hasHistory : process.HasHistory platform)
    (nextWellFormed : next.WellFormed platform) (object : Object)
    (objectsEq : process.objects = object :: next.objects)
    (tableEq : next.table = object.destruct platform process.table)
    (suffix : next.frame <:+ [.pipeReader, .process, .pipe]) (noThread : .pipeReader ∉ next.frame)
    {exit : Exit} (atPc : next.main = .unwind exit) : next.HasHistory platform := by
  rcases hasHistory.history with ⟨events, reaches, _⟩
  rw [objectsEq] at reaches
  refine ⟨nextWellFormed, suffix, by simp [atPc], by simp [atPc], events ++ [.delete 0], ?_,
    Or.inr ⟨noThread, Or.inl ⟨exit, atPc⟩⟩⟩
  rw [tableEq]
  exact reaches.delete

theorem MainStep.hasHistory {call : MainCall} (step : MainStep platform process call next)
    (hasHistory : process.HasHistory platform) : next.HasHistory platform := by
  have nextWellFormed := step.wellFormed hasHistory.wellFormed
  have wellFormed := hasHistory.wellFormed
  have suffix := hasHistory.suffix
  cases step with
  | openPipe result atPc answer =>
      simp only [WellFormed, atPc] at wellFormed
      rcases hasHistory.constructed (by simp [Destroying, atPc]) with ⟨events, reaches, noDelete⟩
      have newReaches := reaches.newPipe answer
      refine ⟨nextWellFormed, ?_, by simp, by simp, events ++ [.newPipe result], ?_,
        Or.inl (noDelete.concat (by simp))⟩
      · rw [wellFormed.1]
        exact ⟨[.pipeReader, .process], rfl⟩
      · simp only [objects, wellFormed.1, List.filterMap_nil] at newReaches ⊢
        exact newReaches
  | createProcess created atPc onWindows answer =>
      simp only [WellFormed, atPc] at wellFormed
      subst platform
      rcases hasHistory.constructed (by simp [Destroying, atPc]) with ⟨events, reaches, noDelete⟩
      have newReaches := reaches.newCreated answer.withoutChildren
      refine ⟨nextWellFormed, ?_, by simp, by simp, events ++ [.newProcess (.created created)],
        ?_, Or.inl (noDelete.concat (by simp))⟩
      · rw [wellFormed.1]
        exact ⟨[.pipeReader], rfl⟩
      · simp only [objects, wellFormed.1] at newReaches ⊢
        exact newReaches
  | storePid pid atPc =>
      simp only [WellFormed, atPc] at wellFormed
      rcases hasHistory.stored pid atPc with ⟨rfl, returned⟩
      rcases hasHistory.constructed (by simp [Destroying, atPc]) with ⟨events, reaches, noDelete⟩
      have newReaches := reaches.newForked returned
      refine ⟨nextWellFormed, ?_, by simp, by simp,
        events ++ [.newProcess (.forked pid false)], ?_, Or.inl (noDelete.concat (by simp))⟩
      · rw [wellFormed.1]
        exact ⟨[.pipeReader], rfl⟩
      · simp only [objects, wellFormed.1] at newReaches ⊢
        exact newReaches
  | destroyProcess exit frame launched atPc frameEq alive =>
      rw [frameEq] at suffix
      rcases not_mem_of_suffix suffix with ⟨noThread, absent⟩
      refine hasHistory.destroy nextWellFormed (.generalProcess launched) ?_ rfl
        ((List.suffix_cons _ _).trans suffix) noThread atPc
      refine objects_eq_cons frameEq (by simp [object?, alive]) rfl absent ?_
      intro name other
      cases name <;> simp_all [object?]
  | destroyPipe exit frame pipe atPc frameEq alive =>
      rw [frameEq] at suffix
      rcases not_mem_of_suffix suffix with ⟨noThread, absent⟩
      refine hasHistory.destroy nextWellFormed (.generalPipe pipe) ?_ rfl
        ((List.suffix_cons _ _).trans suffix) noThread atPc
      refine objects_eq_cons frameEq (by simp [object?, alive]) rfl absent ?_
      intro name other
      cases name <;> simp_all [object?]
  | pipeFailed pipe atPc alive failed =>
      exact hasHistory.quiet nextWellFormed rfl rfl suffix (by simp) (by simp)
        (by simp [Destroying, atPc])
  | pipeOpened pipe atPc alive opened =>
      exact hasHistory.quiet nextWellFormed rfl rfl suffix (by simp) (by simp)
        (by simp [Destroying, atPc])
  | fork pid atPc onLinux answer =>
      refine hasHistory.quiet nextWellFormed rfl rfl suffix ?_ (by simp)
        (by simp [Destroying, atPc])
      rintro stored storedEq
      obtain rfl := MainPc.storePid.inj storedEq
      exact ⟨onLinux, answer.le⟩
  | execReplaced atPc =>
      exact hasHistory.quiet nextWellFormed rfl rfl suffix (by simp) (by simp)
        (by simp [Destroying, atPc])
  | execReturned atPc =>
      refine hasHistory.quiet nextWellFormed rfl rfl suffix ?_ (by simp)
        (by simp [Destroying, atPc])
      rintro stored storedEq
      obtain rfl := MainPc.storePid.inj storedEq
      exact ⟨hasHistory.onLinux atPc, by decide⟩
  | threadStarted buffer atPc =>
      simp only [WellFormed, atPc] at wellFormed
      refine hasHistory.quiet nextWellFormed rfl rfl ?_ (by simp) (by simp)
        (by simp [Destroying, atPc])
      rw [wellFormed.1]
  | threadThrew atPc =>
      exact hasHistory.quiet nextWellFormed rfl rfl suffix (by simp) (by simp)
        (by simp [Destroying, atPc])
  | wait launched answer children atPc alive returns =>
      exact hasHistory.quiet nextWellFormed rfl rfl suffix (by simp) (by simp)
        (by simp [Destroying, atPc])
  | return0 atPc =>
      exact hasHistory.quiet nextWellFormed rfl rfl suffix (by simp) (by simp)
        (by simp [Destroying, atPc])
  | destroyJoinable exit frame thread atPc frameEq alive joinable =>
      exact hasHistory.quiet nextWellFormed rfl rfl suffix (by simp) (by simp)
        (by simp [Destroying, frameEq])
  | destroyThread exit frame thread atPc frameEq alive notJoinable =>
      rw [frameEq] at suffix
      refine hasHistory.quiet nextWellFormed rfl ?_ ((List.suffix_cons _ _).trans suffix)
        (by simp [atPc]) (by simp [atPc]) (by simp [Destroying, frameEq])
      rw [objects, objects, frameEq]
      rfl
  | leave exit atPc frameEq =>
      exact hasHistory.quiet nextWellFormed rfl rfl suffix (by simp) (by simp)
        (by simp [Destroying, frameEq])
  | die atPc =>
      exact hasHistory.quiet nextWellFormed rfl rfl suffix (by simp) (by simp)
        (by simp [Destroying, atPc])

end Process

namespace System

variable {platform : Platform}

theorem processInvariant_hasHistory :
    ProcessInvariant platform (Process.HasHistory platform) where
  mainStep _ _ _ hasHistory mainStep := mainStep.hasHistory hasHistory
  forkedCopy process hasHistory onLinux atPc := by
    rcases hasHistory.constructed (by simp [Process.Destroying, atPc]) with
      ⟨events, reaches, noDelete⟩
    exact ⟨hasHistory.wellFormed.forkedCopy atPc, hasHistory.suffix,
      by simp [Process.forkedCopy], fun _ => onLinux, events, reaches, Or.inl noDelete⟩
  withChildren _ children hasHistory :=
    hasHistory.quiet (hasHistory.wellFormed.withChildren children) rfl rfl hasHistory.suffix
      hasHistory.stored hasHistory.onLinux id
  withReader process reader next channel channelNext call hasHistory running hasReader
      readerStep :=
    hasHistory.quiet
      (processInvariant_wellFormed.withReader _ _ _ _ _ _ hasHistory.wellFormed running hasReader
        readerStep)
      rfl rfl hasHistory.suffix hasHistory.stored hasHistory.onLinux id

/-- In every reachable state both processes did what some history of their objects does. -/
theorem hasHistory_of_run {others : List Child} {events : List Event} {final : System}
    (runs : Transition.run (step platform) (initial others) events = some final) :
    final.Both (Process.HasHistory platform) :=
  both_of_run processInvariant_hasHistory (Process.hasHistory_initial others) runs

/--
Until a process executing `StartMiddleMan` begins to destroy its locals, it has open
exactly what they opened.
-/
theorem exact_of_not_destroying {others : List Child} {events : List Event} {final : System}
    (runs : Transition.run (step platform) (initial others) events = some final) {who : Who}
    {process : Process} (present : final.process who = some process)
    (notDestroying : ¬process.Destroying) :
    Ownership.Exact (Object.resources platform) process.table process.objects := by
  have hasHistory : process.HasHistory platform := by
    have both := hasHistory_of_run runs
    cases who with
    | host =>
        simp only [System.process, Option.some.injEq] at present
        subst process
        exact both.1
    | forked => exact both.2 process present
  rcases hasHistory.constructed notDestroying with ⟨_, reaches, noDelete⟩
  exact reaches.exact noDelete

theorem exact_of_not_destroying_forked :
    ∃ final process,
      Transition.run (step .linux) (initial []) forkedReadEvents = some final ∧
        final.process .forked = some process ∧
          Ownership.Exact (Object.resources .linux) process.table process.objects := by
  refine ⟨_, _, rfl, rfl, ?_⟩
  refine @exact_of_not_destroying .linux [] forkedReadEvents _ rfl .forked _ rfl ?_
  rintro ⟨noThread, _⟩
  exact absurd noThread (by decide)

end System

end MiddleMan
