import MiddleMan.Fidelity

/-!
# Launching and waiting

What the main thread knows when `Process.Wait()` has returned.  The constructor of
`GeneralProcess` reports no failure and `Wait` looks at no result, so the thread goes on
to `return 0` in any case.

`LaunchBooks` is the invariant of runs in which nothing went wrong: the children list of
the host tells truly whether the program has exited.  `Hopeless` is what a failed launch
leaves behind: a program which never starts.
-/

namespace MiddleMan

/-- The process has not launched anything yet. -/
def MainPc.Early : MainPc → Prop
  | .constructPipe | .checkPipe | .launch => True
  | _ => False

/-- `Process.Wait()` has returned, or `StartMiddleMan` is being left without it. -/
def MainPc.AfterWait : MainPc → Prop
  | .return0 | .unwind _ | .left _ | .terminating | .dead => True
  | _ => False

namespace Process

variable {platform : Platform} {process next : Process}

theorem MainStep.not_early {call : MainCall} (step : MainStep platform process call next)
    (notEarly : ¬process.main.Early) : ¬next.main.Early := by
  cases step <;> simp_all [MainPc.Early]

theorem MainStep.ne_execlp {call : MainCall} (step : MainStep platform process call next) :
    next.main ≠ .execlp := by
  cases step <;> simp_all

theorem MainStep.afterWait {call : MainCall} (step : MainStep platform process call next)
    (afterWait : process.main.AfterWait) : next.main.AfterWait := by
  cases step <;> simp_all [MainPc.AfterWait]

theorem MainStep.afterWait_of_wait {answer : WaitReturn}
    (step : MainStep platform process (.wait answer) next) :
    process.main = .wait ∧ next.main = .return0 := by
  cases step with
  | wait launched answer children atPc alive returns => exact ⟨atPc, rfl⟩

end Process

/-- The children list is right about the program with this pid: it is listed as exited
exactly when it has, and it is gone only after it has. -/
def Tracked (pid : ℤ) (children : List Child) (program : ProgramStatus) : Prop :=
  (∀ child ∈ children, child.pid = pid → (child.exited = true ↔ program = .exited)) ∧
    ((∀ child ∈ children, child.pid ≠ pid) → program = .exited)

namespace Tracked

variable {pid other : ℤ} {children : List Child} {program : ProgramStatus}

theorem adopt {child : Child} (childPid : child.pid = pid) (running : child.exited = false)
    (fresh : ∀ old ∈ children, old.pid ≠ pid) (notExited : program ≠ .exited) :
    Tracked pid (child :: children) program := by
  constructor
  · intro listed listed_mem listedPid
    rcases List.mem_cons.mp listed_mem with rfl | old_mem
    · simp [running, notExited]
    · exact absurd listedPid (fresh listed old_mem)
  · intro absent
    exact absurd childPid (absent child List.mem_cons_self)

theorem exitOwn : Tracked pid (exitChild pid children) .exited := by
  constructor
  · intro child child_mem childPid
    rcases List.mem_map.mp child_mem with ⟨old, _, rfl⟩
    by_cases same : old.pid = pid
    · simp [same]
    · simp [same] at childPid
  · intro _
    rfl

theorem exitOther (tracked : Tracked pid children program) (different : other ≠ pid) :
    Tracked pid (exitChild other children) program := by
  constructor
  · intro child child_mem childPid
    rcases List.mem_map.mp child_mem with ⟨old, old_mem, rfl⟩
    by_cases same : old.pid = other
    · rw [if_pos same, Child.exit_pid, same] at childPid
      exact absurd childPid different
    · rw [if_neg same] at childPid ⊢
      exact tracked.1 old old_mem childPid
  · intro absent
    apply tracked.2
    intro old old_mem oldPid
    have notOther : ¬old.pid = other := by
      rw [oldPid]
      exact Ne.symm different
    apply absent old _ oldPid
    exact List.mem_map.mpr ⟨old, old_mem, if_neg notOther⟩

theorem remove (tracked : Tracked pid children program)
    (exited : ∃ child ∈ children, child.pid = other ∧ child.exited = true) :
    Tracked pid (removeChild other children) program := by
  constructor
  · intro child child_mem childPid
    exact tracked.1 child (mem_removeChild.mp child_mem).1 childPid
  · intro absent
    by_cases same : other = pid
    · rcases exited with ⟨child, child_mem, childPid, childExited⟩
      exact (tracked.1 child child_mem (childPid.trans same)).mp childExited
    · apply tracked.2
      intro old old_mem oldPid
      apply absent old _ oldPid
      rw [mem_removeChild, oldPid]
      exact ⟨old_mem, Ne.symm same⟩

theorem start (tracked : Tracked pid children .notStarted) : Tracked pid children .running := by
  constructor
  · intro child child_mem childPid
    rw [tracked.1 child child_mem childPid]
    simp
  · intro absent
    exact absurd (tracked.2 absent) (by simp)

end Tracked

/-- The object knows the child under the name `pid`. -/
def GeneralProcess.Names (platform : Platform) (launched : GeneralProcess) (pid : ℤ) : Prop :=
  match platform with
  | .linux => launched.childPid = some pid ∧ 0 < pid
  | .windows => ∃ hThread, launched.processInformation = some (pid, hThread)

/--
Waiting for a tracked child ends because the program has exited, unless a signal ends it
while the program is running.  No other child is released.
-/
theorem GeneralProcess.wait_of_names {platform : Platform} {launched : GeneralProcess} {pid : ℤ}
    (names : launched.Names platform pid) {children rest : List Child}
    {program : ProgramStatus} (tracked : Tracked pid children program) {answer : WaitReturn}
    (returns : launched.wait platform children answer = some rest) :
    (answer = .interrupted ∧ program ≠ .exited) ∨
      (answer ≠ .interrupted ∧ program = .exited ∧ Tracked pid rest program ∧
        ∀ released, answer = .reaped released → released = pid) := by
  cases platform with
  | windows =>
      rcases names with ⟨hThread, created⟩
      simp only [GeneralProcess.wait, created] at returns
      rcases waitForSingleObject_of_created returns with
        ⟨rfl, rfl, child, child_mem, childPid, exited⟩
      exact Or.inr ⟨by simp, (tracked.1 child child_mem childPid).mp exited, tracked, by simp⟩
  | linux =>
      rcases names with ⟨childPidEq, positive⟩
      simp only [GeneralProcess.wait, childPidEq] at returns
      rcases waitpid_of_pos positive returns with reaped | noChild | interrupted
      · rcases reaped with ⟨rfl, rfl, child, child_mem, childPid, exited⟩
        refine Or.inr ⟨by simp, (tracked.1 child child_mem childPid).mp exited,
          tracked.remove ⟨child, child_mem, childPid, exited⟩, ?_⟩
        intro released releasedEq
        exact (WaitReturn.reaped.inj releasedEq).symm
      · rcases noChild with ⟨rfl, rfl, absent⟩
        exact Or.inr ⟨by simp, tracked.2 absent, tracked, by simp⟩
      · rcases interrupted with ⟨rfl, rfl, child, child_mem, childPid, running⟩
        refine Or.inl ⟨rfl, ?_⟩
        intro exited
        rw [(tracked.1 child child_mem childPid).mpr exited] at running
        simp at running

namespace System

variable {platform : Platform} {system next : System}

/-- At `return 0` behind `Wait`, the program was started and has exited, and the wait
released no other child. -/
structure Truthful (system : System) : Prop where
  exited : system.host.main = .return0 → system.program = .exited
  reapedOwn : ∀ pid ∈ system.reaped, system.programPid = some pid

/-- A signal interrupts `waitpid`. -/
def Event.WaitInterrupted : Event → Prop
  | .main .host (.wait answer) => answer = .interrupted
  | _ => False

/-- The program cannot be launched, or `Wait` is interrupted. -/
def Event.Fault (event : Event) : Prop :=
  event.LaunchFault ∨ event.WaitInterrupted

/-- What is known while nothing has gone wrong. -/
structure LaunchBooks (platform : Platform) (system : System) : Prop where
  early : system.host.main.Early →
    system.programPid = none ∧ system.program = .notStarted ∧ system.forked = none
  notExec : system.host.main ≠ .execlp
  stored : ∀ pid, system.host.main = .storePid pid →
    system.programPid = some pid ∧ 0 < pid ∧ platform = .linux
  names : ∀ launched, system.host.process = .alive launched →
    ∃ pid, system.programPid = some pid ∧ launched.Names platform pid
  tracked : ∀ pid, system.programPid = some pid →
    Tracked pid system.host.children system.program
  silent : system.ForkedSilent
  execPending : ∀ process, system.forked = some process → process.main = .execlp →
    system.program = .notStarted
  truthful : system.Truthful

theorem launchBooks_initial (others : List Child) : LaunchBooks platform (initial others) where
  early := fun _ => ⟨rfl, rfl, rfl⟩
  notExec := by simp [initial, entering, Process.entering]
  stored := by simp [initial, entering, Process.entering]
  names := by simp [initial, entering, Process.entering]
  tracked := by simp [initial, entering]
  silent := by simp [initial, entering, ForkedSilent]
  execPending := by simp [initial, entering]
  truthful := ⟨by simp [initial, entering, Process.entering], by simp [initial, entering]⟩

theorem LaunchBooks.withHost (books : LaunchBooks platform system) (process : Process)
    (early : process.main.Early → system.host.main.Early) (notExec : process.main ≠ .execlp)
    (notStored : ∀ pid, process.main ≠ .storePid pid) (notReturn : process.main ≠ .return0)
    (object : process.process = system.host.process ∨ process.process = .destroyed)
    (children : process.children = system.host.children) :
    LaunchBooks platform { system with host := process } where
  early := fun isEarly => books.early (early isEarly)
  notExec := notExec
  stored := fun pid atStore => absurd atStore (notStored pid)
  names := by
    intro launched alive
    rcases object with same | destroyed
    · exact books.names launched (same.symm.trans alive)
    · simp [destroyed] at alive
  tracked := by
    intro pid known
    change Tracked pid process.children system.program
    rw [children]
    exact books.tracked pid known
  silent := books.silent
  execPending := books.execPending
  truthful := ⟨fun atReturn => absurd atReturn notReturn, books.truthful.reapedOwn⟩

theorem LaunchBooks.withChildren (books : LaunchBooks platform system) (children : List Child)
    (tracked : ∀ pid, system.programPid = some pid → Tracked pid children system.program) :
    LaunchBooks platform
      { system with host := { system.host with children := children } } where
  early := books.early
  notExec := books.notExec
  stored := books.stored
  names := books.names
  tracked := tracked
  silent := books.silent
  execPending := books.execPending
  truthful := ⟨books.truthful.exited, books.truthful.reapedOwn⟩

theorem LaunchBooks.fork (books : LaunchBooks platform system) {pid : ℤ} (positive : 0 < pid)
    (atPc : system.host.main = .launch) (onLinux : platform = .linux)
    (fresh : ∀ child ∈ system.host.children, child.pid ≠ pid) :
    LaunchBooks platform
      { system with
        host :=
          { system.host with
            main := .storePid pid, children := adoptForked pid system.host.children }
        forked := some system.host.forkedCopy
        programPid := some pid } := by
  rcases books.early (by simp [atPc, MainPc.Early]) with ⟨noPid, notStarted, _⟩
  constructor
  case early => simp [MainPc.Early]
  case notExec => simp
  case stored =>
    intro stored storedEq
    rw [MainPc.storePid.injEq] at storedEq
    subst stored
    exact ⟨rfl, positive, onLinux⟩
  case names =>
    intro launched alive
    rcases books.names launched alive with ⟨old, oldKnown, _⟩
    simp [noPid] at oldKnown
  case tracked =>
    intro known knownEq
    simp only [Option.some.injEq] at knownEq
    subst known
    simp only [adoptForked, if_pos positive]
    exact Tracked.adopt rfl rfl fresh (by simp [notStarted])
  case silent =>
    intro process processEq
    simp only [Option.some.injEq] at processEq
    subst process
    exact ⟨rfl, Or.inl rfl⟩
  case execPending => exact fun _ _ _ => notStarted
  case truthful =>
    refine ⟨by simp, ?_⟩
    intro reaped reaped_mem
    have := books.truthful.reapedOwn reaped reaped_mem
    simp [noPid] at this

theorem LaunchBooks.createProcess (books : LaunchBooks platform system) {hProcess hThread : ℤ}
    (atPc : system.host.main = .launch) (onWindows : platform = .windows)
    (fresh : ∀ child ∈ system.host.children, child.pid ≠ hProcess) (process : Process)
    (mainEq : process.main = .startThread)
    (objectEq : process.process =
      .alive (GeneralProcess.constructWindows (some (hProcess, hThread))))
    (childrenEq : process.children =
      adoptCreated (some (hProcess, hThread)) system.host.children) :
    LaunchBooks platform
      { system with host := process, program := .running, programPid := some hProcess } := by
  rcases books.early (by simp [atPc, MainPc.Early]) with ⟨noPid, notStarted, noForked⟩
  constructor
  case early => simp [mainEq, MainPc.Early]
  case notExec => simp [mainEq]
  case stored => simp [mainEq]
  case names =>
    intro launched alive
    rw [objectEq, Lifetime.alive.injEq] at alive
    subst launched onWindows
    exact ⟨hProcess, rfl, hThread, rfl⟩
  case tracked =>
    intro known knownEq
    simp only [Option.some.injEq] at knownEq
    subst known
    simp only [childrenEq, adoptCreated]
    exact Tracked.adopt rfl rfl fresh (by simp)
  case silent => simp [ForkedSilent, noForked]
  case execPending => simp [noForked]
  case truthful =>
    refine ⟨by simp [mainEq], ?_⟩
    intro reaped reaped_mem
    have := books.truthful.reapedOwn reaped reaped_mem
    simp [noPid] at this

theorem LaunchBooks.storePid (books : LaunchBooks platform system) {pid : ℤ}
    (atPc : system.host.main = .storePid pid) (process : Process)
    (mainEq : process.main = .startThread)
    (objectEq : process.process = .alive (GeneralProcess.constructLinux pid))
    (childrenEq : process.children = system.host.children) :
    LaunchBooks platform { system with host := process } := by
  rcases books.stored pid atPc with ⟨known, positive, onLinux⟩
  constructor
  case early => simp [mainEq, MainPc.Early]
  case notExec => simp [mainEq]
  case stored => simp [mainEq]
  case names =>
    intro launched alive
    rw [objectEq, Lifetime.alive.injEq] at alive
    subst launched onLinux
    exact ⟨pid, known, rfl, positive⟩
  case tracked =>
    intro other otherKnown
    simp only [childrenEq]
    exact books.tracked other otherKnown
  case silent => exact books.silent
  case execPending => exact books.execPending
  case truthful => exact ⟨by simp [mainEq], books.truthful.reapedOwn⟩

theorem afterHost_wait (system : System) (process : Process) (answer : WaitReturn) :
    ∃ reaped,
      system.afterHost process (.wait answer) = { system with host := process, reaped := reaped } ∧
        ∀ pid ∈ reaped, pid ∈ system.reaped ∨ answer = .reaped pid := by
  cases answer with
  | reaped released =>
      refine ⟨system.reaped ++ [released], rfl, ?_⟩
      intro pid pid_mem
      rcases List.mem_append.mp pid_mem with old_mem | new_mem
      · exact Or.inl old_mem
      · simp only [List.mem_singleton] at new_mem
        exact Or.inr (by rw [new_mem])
  | _ => exact ⟨system.reaped, rfl, fun pid pid_mem => Or.inl pid_mem⟩

theorem LaunchBooks.wait (books : LaunchBooks platform system) {launched : GeneralProcess}
    {answer : WaitReturn} {children : List Child}
    (alive : system.host.process = .alive launched)
    (returns : launched.wait platform system.host.children answer = some children)
    (notInterrupted : answer ≠ .interrupted) :
    LaunchBooks platform
      (system.afterHost { system.host with main := .return0, children := children }
        (.wait answer)) := by
  rcases books.names launched alive with ⟨pid, known, names⟩
  rcases launched.wait_of_names names (books.tracked pid known) returns with
    ⟨interrupted, _⟩ | ⟨_, exited, tracked, ownOnly⟩
  · exact absurd interrupted notInterrupted
  rcases system.afterHost_wait
      { system.host with main := .return0, children := children } answer with
    ⟨reaped, afterEq, reapedOnly⟩
  rw [afterEq]
  constructor
  case early => simp [MainPc.Early]
  case notExec => simp
  case stored => simp
  case names => exact books.names
  case tracked =>
    intro other otherKnown
    obtain rfl : pid = other := Option.some.inj (known.symm.trans otherKnown)
    exact tracked
  case silent => exact books.silent
  case execPending => exact books.execPending
  case truthful =>
    refine ⟨fun _ => exited, ?_⟩
    intro released released_mem
    rcases reapedOnly released released_mem with old_mem | isNew
    · exact books.truthful.reapedOwn released old_mem
    · rw [ownOnly released isNew]
      exact known

theorem LaunchBooks.hostMain (books : LaunchBooks platform system) {call : MainCall}
    {process : Process} (mainStep : Process.MainStep platform system.host call process)
    (noFault : ¬(Event.main .host call).Fault) :
    LaunchBooks platform (system.afterHost process call) := by
  cases mainStep with
  | fork pid atPc onLinux answer =>
      rcases answer with failed | ⟨positive, fresh⟩
      · exact absurd (Or.inl failed) noFault
      · simp only [afterHost, if_pos positive]
        exact books.fork positive atPc onLinux fresh
  | createProcess created atPc onWindows answer =>
      cases created with
      | none => exact absurd (Or.inl rfl) noFault
      | some handles =>
          rcases handles with ⟨hProcess, hThread⟩
          exact books.createProcess atPc onWindows answer.2.2.2.2.2 _ rfl rfl rfl
  | storePid pid atPc => exact books.storePid atPc _ rfl rfl rfl
  | wait launched answer children atPc alive returns =>
      exact books.wait alive returns fun interrupted => noFault (Or.inr interrupted)
  | execReplaced atPc => exact absurd atPc books.notExec
  | execReturned atPc => exact absurd atPc books.notExec
  | openPipe result atPc answer =>
      exact books.withHost _ (fun _ => by simp [atPc, MainPc.Early]) (by simp) (by simp)
        (by simp) (Or.inl rfl) rfl
  | pipeOpened pipe atPc alive opened =>
      exact books.withHost _ (fun _ => by simp [atPc, MainPc.Early]) (by simp) (by simp)
        (by simp) (Or.inl rfl) rfl
  | pipeFailed pipe atPc alive failed =>
      exact books.withHost _ (by simp [MainPc.Early]) (by simp) (by simp) (by simp)
        (Or.inl rfl) rfl
  | threadStarted buffer atPc =>
      exact books.withHost _ (by simp [MainPc.Early]) (by simp) (by simp) (by simp)
        (Or.inl rfl) rfl
  | threadThrew atPc =>
      exact books.withHost _ (by simp [MainPc.Early]) (by simp) (by simp) (by simp)
        (Or.inl rfl) rfl
  | return0 atPc =>
      exact books.withHost _ (by simp [MainPc.Early]) (by simp) (by simp) (by simp)
        (Or.inl rfl) rfl
  | destroyJoinable exit frame thread atPc frameEq alive joinable =>
      exact books.withHost _ (by simp [MainPc.Early]) (by simp) (by simp) (by simp)
        (Or.inl rfl) rfl
  | destroyThread exit frame thread atPc frameEq alive notJoinable =>
      exact books.withHost _ (by simp [atPc, MainPc.Early]) (by simp [atPc]) (by simp [atPc])
        (by simp [atPc]) (Or.inl rfl) rfl
  | destroyProcess exit frame launched atPc frameEq alive =>
      exact books.withHost _ (by simp [atPc, MainPc.Early]) (by simp [atPc]) (by simp [atPc])
        (by simp [atPc]) (Or.inr rfl) rfl
  | destroyPipe exit frame pipe atPc frameEq alive =>
      exact books.withHost _ (by simp [atPc, MainPc.Early]) (by simp [atPc]) (by simp [atPc])
        (by simp [atPc]) (Or.inl rfl) rfl
  | leave exit atPc frameEq =>
      exact books.withHost _ (by simp [MainPc.Early]) (by simp) (by simp) (by simp)
        (Or.inl rfl) rfl
  | die atPc =>
      exact books.withHost _ (by simp [MainPc.Early]) (by simp) (by simp) (by simp)
        (Or.inl rfl) rfl

/-- The silent child can only have its image replaced, which starts the program. -/
theorem LaunchBooks.forkedMain (books : LaunchBooks platform system) {call : MainCall}
    {process processNext : Process} (present : system.forked = some process)
    (mainStep : Process.MainStep platform process call processNext)
    (noFault : ¬(Event.main .forked call).Fault) :
    LaunchBooks platform (system.afterForked processNext call) := by
  rcases books.silent process present with ⟨noReader, atExec | replaced⟩
  · cases mainStep with
    | execReplaced atPc =>
        have notStarted := books.execPending process present atPc
        constructor
        case early =>
          intro isEarly
          have noForked := (books.early isEarly).2.2
          simp [present] at noForked
        case notExec => exact books.notExec
        case stored => exact books.stored
        case names => exact books.names
        case tracked =>
          intro pid known
          have tracked := books.tracked pid known
          rw [notStarted] at tracked
          exact tracked.start
        case silent =>
          intro forked forkedEq
          simp only [afterForked_forked, Option.some.injEq] at forkedEq
          subst forked
          exact ⟨noReader, Or.inr rfl⟩
        case execPending =>
          intro forked forkedEq atExecAgain
          simp only [afterForked_forked, Option.some.injEq] at forkedEq
          subst forked
          simp at atExecAgain
        case truthful =>
          refine ⟨?_, books.truthful.reapedOwn⟩
          intro atReturn
          have exited := books.truthful.exited atReturn
          rw [notStarted] at exited
          simp at exited
    | execReturned atPc => exact absurd (Or.inl rfl) noFault
    | _ => simp_all
  · cases mainStep <;> simp_all

theorem LaunchBooks.programExit (books : LaunchBooks platform system)
    (running : system.program = .running) :
    LaunchBooks platform { system with program := .exited }.reportExit := by
  have notEarly : ¬system.host.main.Early := by
    intro isEarly
    have notStarted := (books.early isEarly).2.1
    simp [running] at notStarted
  have noExec : ∀ process, system.forked = some process → process.main ≠ .execlp := by
    intro process present atExec
    have notStarted := books.execPending process present atExec
    simp [running] at notStarted
  cases known : system.programPid with
  | none =>
      simp only [reportExit]
      refine ⟨fun isEarly => absurd isEarly notEarly, books.notExec, ?_, ?_, ?_, books.silent,
        fun process present atExec => absurd atExec (noExec process present), fun _ => rfl, ?_⟩
      · simpa [known] using books.stored
      · simpa [known] using books.names
      · simp
      · simpa [known] using books.truthful.reapedOwn
  | some pid =>
      simp only [reportExit]
      refine ⟨fun isEarly => absurd isEarly notEarly, books.notExec, ?_, ?_, ?_, books.silent,
        fun process present atExec => absurd atExec (noExec process present), fun _ => rfl, ?_⟩
      · simpa [known] using books.stored
      · simpa [known] using books.names
      · intro other otherKnown
        obtain rfl : pid = other := Option.some.inj otherKnown
        exact Tracked.exitOwn
      · simpa [known] using books.truthful.reapedOwn

theorem Step.launchBooks {event : Event} (step : Step platform system event next)
    (noFault : ¬event.Fault) (books : LaunchBooks platform system) :
    LaunchBooks platform next := by
  cases step with
  | hostMain call process mainStep => exact books.hostMain mainStep noFault
  | forkedMain call process processNext present mainStep =>
      exact books.forkedMain present mainStep noFault
  | write bytes => exact ⟨books.early, books.notExec, books.stored, books.names, books.tracked,
      books.silent, books.execPending, books.truthful.exited, books.truthful.reapedOwn⟩
  | keystroke key => exact ⟨books.early, books.notExec, books.stored, books.names,
      books.tracked, books.silent, books.execPending, books.truthful.exited,
      books.truthful.reapedOwn⟩
  | reader who call process reader readerNext channel present running hasReader readerStep =>
      cases who with
      | host =>
          simp only [System.process, Option.some.injEq] at present
          subst process
          exact ⟨books.early, books.notExec, books.stored, books.names, books.tracked,
            books.silent, books.execPending, books.truthful.exited, books.truthful.reapedOwn⟩
      | forked =>
          rw [(books.silent process present).1] at hasReader
          simp at hasReader
  | programExit running => exact books.programExit running
  | childExit pid other =>
      apply books.withChildren
      intro known knownEq
      refine (books.tracked known knownEq).exitOther ?_
      rintro rfl
      exact other knownEq.symm
  | childReaped pid onLinux exited =>
      apply books.withChildren
      intro known knownEq
      exact (books.tracked known knownEq).remove exited

theorem launchBooks_of_run {others : List Child} {events : List Event} {final : System}
    (runs : Transition.run (step platform) (initial others) events = some final)
    (noFault : ∀ event ∈ events, ¬event.Fault) : LaunchBooks platform final :=
  Transition.invariant_of_allowed (fun event => ¬event.Fault) (launchBooks_initial others)
    (fun _ _ _ books eventNoFault stepEq => (step_sound stepEq).launchBooks eventNoFault books)
    runs noFault

/-! ## After a fault -/

/-- The program is launched after the main thread's early part, and by nothing else. -/
structure LaunchOrder (system : System) : Prop where
  early : system.host.main.Early → system.program = .notStarted ∧ system.forked = none
  exec : ∀ process, system.forked = some process → process.main = .execlp →
    system.program = .notStarted ∧ ¬system.host.main.Early

/-- The program has not started, and there is nobody left to start it. -/
structure Hopeless (system : System) : Prop where
  notStarted : system.program = .notStarted
  notEarly : ¬system.host.main.Early
  noExec : ∀ process, system.forked = some process → process.main ≠ .execlp

theorem launchOrder_entering (base : HandleTable) (others : List Child) :
    (entering base others).LaunchOrder :=
  ⟨fun _ => ⟨rfl, rfl⟩, by simp [entering]⟩

theorem afterHost_cases {call : MainCall} {process : Process}
    (mainStep : Process.MainStep platform system.host call process) :
    (system.afterHost process call).program = system.program ∧
        (system.afterHost process call).forked = system.forked ∨
      system.host.main = .launch ∧ ¬process.main.Early ∧
        ((system.afterHost process call).program = system.program ∧
            (system.afterHost process call).forked = some system.host.forkedCopy ∨
          (system.afterHost process call).forked = system.forked) := by
  cases mainStep with
  | fork pid atPc onLinux answer =>
      by_cases positive : 0 < pid
      · right
        exact ⟨atPc, by simp [MainPc.Early], by simp [afterHost, if_pos positive]⟩
      · left
        simp [afterHost, if_neg positive]
  | createProcess created atPc onWindows answer =>
      cases created with
      | none => exact Or.inl ⟨rfl, rfl⟩
      | some handles => exact Or.inr ⟨atPc, by simp [MainPc.Early], Or.inr rfl⟩
  | wait launched answer children atPc alive returns => cases answer <;> exact Or.inl ⟨rfl, rfl⟩
  | _ => exact Or.inl ⟨rfl, rfl⟩

theorem afterForked_program (system : System) {call : MainCall} {process processNext : Process}
    (mainStep : Process.MainStep platform process call processNext) :
    (system.afterForked processNext call).program = system.program ∨ process.main = .execlp := by
  cases mainStep with
  | execReplaced atPc => exact Or.inr atPc
  | execReturned atPc => exact Or.inr atPc
  | die atPc => exact Or.inl (reportExit_program _)
  | _ => exact Or.inl rfl

theorem Step.launchOrder {event : Event} (step : Step platform system event next)
    (order : system.LaunchOrder) : next.LaunchOrder := by
  cases step with
  | hostMain call process mainStep =>
      rcases afterHost_cases mainStep with ⟨programEq, forkedEq⟩ | ⟨atPc, notEarly, others⟩
      · constructor
        · rw [afterHost_host, programEq, forkedEq]
          intro isEarly
          by_contra notOrder
          exact mainStep.not_early (fun wasEarly => notOrder (order.early wasEarly)) isEarly
        · rw [afterHost_host, programEq, forkedEq]
          intro forked present atExec
          exact ⟨(order.exec forked present atExec).1,
            mainStep.not_early (order.exec forked present atExec).2⟩
      · have early := order.early (by simp [atPc, MainPc.Early])
        constructor
        · rw [afterHost_host]
          exact fun isEarly => absurd isEarly notEarly
        · rw [afterHost_host]
          intro forked present atExec
          refine ⟨?_, notEarly⟩
          rcases others with ⟨programEq, _⟩ | forkedEq
          · rw [programEq, early.1]
          · rw [forkedEq, early.2] at present
            simp at present
  | forkedMain call process processNext present mainStep =>
      rcases system.afterForked_host processNext call with ⟨children, hostEq⟩
      constructor
      · rw [hostEq]
        intro isEarly
        have noForked := (order.early isEarly).2
        simp [present] at noForked
      · intro forked forkedEq atExec
        simp only [afterForked_forked, Option.some.injEq] at forkedEq
        subst forked
        exact absurd atExec mainStep.ne_execlp
  | reader who call process reader readerNext channel present running hasReader readerStep =>
      cases who with
      | host =>
          simp only [System.process, Option.some.injEq] at present
          subst process
          exact ⟨order.early, order.exec⟩
      | forked =>
          simp only [System.process] at present
          constructor
          · intro isEarly
            have noForked := (order.early isEarly).2
            simp [present] at noForked
          · intro forked forkedEq atExec
            simp only [setProcess, Option.some.injEq] at forkedEq
            subst forked
            exact order.exec process present atExec
  | programExit running =>
      rcases reportExit_host { system with program := .exited } with ⟨children, hostEq⟩
      constructor
      · rw [hostEq]
        intro isEarly
        have notStarted := (order.early isEarly).1
        simp [running] at notStarted
      · rw [reportExit_forked]
        intro forked forkedEq atExec
        have notStarted := (order.exec forked forkedEq atExec).1
        simp [running] at notStarted
  | write bytes => exact ⟨order.early, order.exec⟩
  | keystroke key => exact ⟨order.early, order.exec⟩
  | childExit pid other => exact ⟨order.early, order.exec⟩
  | childReaped pid onLinux exited => exact ⟨order.early, order.exec⟩

/-- A failed launch leaves nobody to start the program. -/
theorem Step.hopeless_of_launchFault {event : Event} (step : Step platform system event next)
    (order : system.LaunchOrder) (fault : event.LaunchFault) : next.Hopeless := by
  cases step with
  | hostMain call process mainStep =>
      cases mainStep with
      | fork pid atPc onLinux answer =>
          have failed : pid = -1 := fault
          have early := order.early (by simp [atPc, MainPc.Early])
          subst pid
          exact ⟨early.1, by simp [afterHost, MainPc.Early], by simp [afterHost, early.2]⟩
      | createProcess created atPc onWindows answer =>
          have failed : created = none := fault
          have early := order.early (by simp [atPc, MainPc.Early])
          subst created
          exact ⟨early.1, by simp [afterHost, MainPc.Early], by simp [afterHost, early.2]⟩
      | _ => exact fault.elim
  | forkedMain call process processNext present mainStep =>
      cases mainStep with
      | execReturned atPc =>
          have pending := order.exec process present atPc
          exact ⟨pending.1, pending.2, by simp [afterForked]⟩
      | execReplaced atPc =>
          have impossible : true = false := fault
          simp at impossible
      | _ => exact fault.elim
  | _ => exact fault.elim

theorem Step.hopeless {event : Event} (step : Step platform system event next)
    (hopeless : system.Hopeless) : next.Hopeless := by
  cases step with
  | hostMain call process mainStep =>
      rcases afterHost_cases mainStep with ⟨programEq, forkedEq⟩ | ⟨atPc, _⟩
      · refine ⟨programEq.trans hopeless.notStarted, ?_, ?_⟩
        · rw [afterHost_host]
          exact mainStep.not_early hopeless.notEarly
        · rw [forkedEq]
          exact hopeless.noExec
      · exact absurd (by simp [atPc, MainPc.Early]) hopeless.notEarly
  | forkedMain call process processNext present mainStep =>
      rcases system.afterForked_host processNext call with ⟨children, hostEq⟩
      rcases system.afterForked_program mainStep with programEq | atExec
      · refine ⟨programEq.trans hopeless.notStarted, ?_, ?_⟩
        · rw [hostEq]
          exact hopeless.notEarly
        · intro forked forkedEq
          simp only [afterForked_forked, Option.some.injEq] at forkedEq
          subst forked
          exact mainStep.ne_execlp
      · exact absurd atExec (hopeless.noExec process present)
  | reader who call process reader readerNext channel present running hasReader readerStep =>
      cases who with
      | host =>
          simp only [System.process, Option.some.injEq] at present
          subst process
          exact ⟨hopeless.notStarted, hopeless.notEarly, hopeless.noExec⟩
      | forked =>
          refine ⟨hopeless.notStarted, hopeless.notEarly, ?_⟩
          intro forked forkedEq
          simp only [setProcess, Option.some.injEq] at forkedEq
          subst forked
          exact hopeless.noExec process present
  | programExit running =>
      have notStarted := hopeless.notStarted
      simp [running] at notStarted
  | write bytes => exact ⟨hopeless.notStarted, hopeless.notEarly, hopeless.noExec⟩
  | keystroke key => exact ⟨hopeless.notStarted, hopeless.notEarly, hopeless.noExec⟩
  | childExit pid other => exact ⟨hopeless.notStarted, hopeless.notEarly, hopeless.noExec⟩
  | childReaped pid onLinux exited =>
      exact ⟨hopeless.notStarted, hopeless.notEarly, hopeless.noExec⟩

/-- After a failed launch the program never starts. -/
theorem hopeless_of_run {others : List Child} {events : List Event} {final : System}
    (runs : Transition.run (step platform) (initial others) events = some final) {event : Event}
    (event_mem : event ∈ events) (fault : event.LaunchFault) : final.Hopeless :=
  Transition.established Event.LaunchFault (launchOrder_entering [] others)
    (fun _ _ _ order stepEq => (step_sound stepEq).launchOrder order)
    (fun _ _ _ order fault stepEq => (step_sound stepEq).hopeless_of_launchFault order fault)
    (fun _ _ _ hopeless stepEq => (step_sound stepEq).hopeless hopeless) runs event_mem fault

theorem Step.afterWait {event : Event} (step : Step platform system event next)
    (afterWait : system.host.main.AfterWait) : next.host.main.AfterWait := by
  rcases step.host_cases with ⟨call, process, _, mainStep, hostEq⟩ | ⟨_, reader, children, hostEq⟩
  · rw [hostEq]
    exact mainStep.afterWait afterWait
  · rw [hostEq]
    exact afterWait

theorem Step.host_wait {answer : WaitReturn}
    (step : Step platform system (.main .host (.wait answer)) next) :
    system.host.main = .wait ∧ next.host.main = .return0 := by
  cases step with
  | hostMain call process mainStep =>
      rw [afterHost_host]
      exact mainStep.afterWait_of_wait

/-- A host which is in `Wait` has not been interrupted there before. -/
theorem not_interrupted_before_wait {others : List Child} {events : List Event} {final : System}
    (runs : Transition.run (step platform) (initial others) events = some final)
    (waiting : final.host.main = .wait) : ∀ event ∈ events, ¬event.WaitInterrupted := by
  intro event event_mem interrupted
  have afterWait : final.host.main.AfterWait := by
    refine Transition.established Event.WaitInterrupted
      (trivial : (fun _ : System => True) (initial others)) (fun _ _ _ _ _ => trivial) ?_
      (fun _ _ _ afterWait stepEq => (step_sound stepEq).afterWait afterWait) runs event_mem
      interrupted
    intro system event next _ interrupted stepEq
    simp only [Event.WaitInterrupted] at interrupted
    split at interrupted
    · simp [(step_sound stepEq).host_wait.2, MainPc.AfterWait]
    · exact interrupted.elim
  simp [waiting, MainPc.AfterWait] at afterWait

theorem LaunchBooks.interrupted_not_exited (books : LaunchBooks platform system)
    (step : Step platform system (.main .host (.wait .interrupted)) next) :
    next.program ≠ .exited := by
  cases step with
  | hostMain call process mainStep =>
      cases mainStep with
      | wait launched answer children atPc alive returns =>
          rcases books.names launched alive with ⟨pid, known, names⟩
          rcases launched.wait_of_names names (books.tracked pid known) returns with
            ⟨_, notExited⟩ | ⟨notInterrupted, _⟩
          · exact notExited
          · exact absurd rfl notInterrupted

/--
A run without a fault is truthful in every state, and the state in which the host's wait
has just returned is truthful exactly if there was no fault up to then.
-/
theorem truthful_iff_no_fault {others : List Child} {events : List Event} {final : System}
    (runs : Transition.run (step platform) (initial others) events = some final) :
    ((∀ event ∈ events, ¬event.Fault) → final.Truthful) ∧
      ∀ answer after, final.step platform (.main .host (.wait answer)) = some after →
        (after.Truthful ↔
          ∀ event ∈ events ++ [.main .host (.wait answer)], ¬event.Fault) := by
  refine ⟨fun noFault => (launchBooks_of_run runs noFault).truthful, ?_⟩
  intro answer after stepEq
  have allRuns := Transition.run_concat_iff.mpr ⟨final, runs, stepEq⟩
  refine ⟨?_, fun noFault => (launchBooks_of_run allRuns noFault).truthful⟩
  intro truthful
  have step := step_sound stepEq
  have exited := truthful.exited step.host_wait.2
  -- after a failed launch the program would not even have started
  have launched : ∀ event ∈ events ++ [.main .host (.wait answer)], ¬event.LaunchFault := by
    intro event event_mem fault
    have notStarted := (hopeless_of_run allRuns event_mem fault).notStarted
    simp [exited] at notStarted
  -- the host waits once, so only the last event can be an interrupted wait
  have notBefore := not_interrupted_before_wait runs step.host_wait.1
  have booksBefore : LaunchBooks platform final := by
    apply launchBooks_of_run runs
    rintro event event_mem (fault | interrupted)
    · exact launched event (List.mem_append_left _ event_mem) fault
    · exact notBefore event event_mem interrupted
  rintro event event_mem (fault | interrupted)
  · exact launched event event_mem fault
  · rcases List.mem_append.mp event_mem with before | last
    · exact notBefore event before interrupted
    · simp only [List.mem_singleton] at last
      subst event
      have answerEq : answer = .interrupted := interrupted
      subst answer
      exact booksBefore.interrupted_not_exited step exited

/-- `fork` fails, and the wait for any child releases another child of the host. -/
def stolenChildEvents : List Event :=
  [.main .host (.openPipe 3), .main .host .checkPipe, .main .host (.fork (-1)),
    .main .host .storePid, .main .host (.startThread (some Buffer.zero)), .childExit 77]

/-- A child which the host had before the call. -/
def otherChild : Child :=
  { pid := 77, sameGroup := true, exited := false }

theorem truthful_iff_no_fault_stolen :
    ∃ final, Transition.run (step .linux) (initial [otherChild]) stolenChildEvents = some final ∧
      ((∀ event ∈ stolenChildEvents, ¬event.Fault) → final.Truthful) ∧
        ∀ answer after, final.step .linux (.main .host (.wait answer)) = some after →
          (after.Truthful ↔
            ∀ event ∈ stolenChildEvents ++ [.main .host (.wait answer)], ¬event.Fault) :=
  ⟨_, rfl, @truthful_iff_no_fault .linux [otherChild] stolenChildEvents _ rfl⟩

/-- The host is about to return 0: nothing was started, and its other child is gone. -/
theorem return0_without_program :
    ∃ final,
      Transition.run (step .linux) (initial [otherChild])
          (stolenChildEvents ++ [.main .host (.wait (.reaped 77))]) = some final ∧
        final.host.main = .return0 ∧ final.program = .notStarted ∧ final.reaped = [77] ∧
          ¬final.Truthful := by
  refine ⟨_, rfl, rfl, rfl, rfl, ?_⟩
  intro truthful
  have exited := truthful.exited rfl
  revert exited
  decide

end System

end MiddleMan
