import MiddleMan.TestProgram
import MiddleMan.GeneralPipe
import MiddleMan.Library.Transition

/-!
# The test program

`WindowsMain` and `LinuxMain` make the pipe, start the terminal program, wait for the
other end of the pipe, and then run the command loop.  `Sender` is the process which
executes them; the launched child is not part of it.

Nothing looks at the result of `write`, `WriteFile`, `ConnectNamedPipe`, or of the `open`
on Linux: a message which cannot be written is dropped, and the loop goes on.
-/

namespace MiddleMan

/-- How the process ended. -/
inductive SenderEnd where
  | exited (code : ℤ)
  /-- A `write` to a pipe without a reader. -/
  | sigpipe
  /-- From outside. -/
  | killed
deriving DecidableEq, Repr

/-- Where the process is in `WindowsMain` or `LinuxMain`. -/
inductive SenderPc where
  /-- At `mkfifo` or `CreateNamedPipeA`. -/
  | createPipe
  /-- At `fork` or `CreateProcessA`. -/
  | launch
  /-- At `open` or `ConnectNamedPipe`. -/
  | connect
  /-- Writing, with the rest of the message and the messages after it. -/
  | writing (rest : List Byte) (messages : List (List Byte))
  /-- At `while (!quit)`. -/
  | loop
  /-- Behind the loop, at `waitpid` or `CloseHandle`. -/
  | waiting
deriving DecidableEq, Repr

namespace SenderPc

/-- At the next message, or at the loop if there is none. -/
def nextMessage : List (List Byte) → SenderPc
  | [] => .loop
  | message :: messages => .writing message messages

/-- After a part of the message has gone into the pipe. -/
def afterPart (rest : List Byte) (messages : List (List Byte)) (part : List Byte) : SenderPc :=
  if rest.length ≤ part.length then nextMessage messages
  else .writing (rest.drop part.length) messages

/-- The process is not connected yet. -/
def Early : SenderPc → Prop
  | .createPipe | .launch | .connect => True
  | .writing _ _ | .loop | .waiting => False

/-- What is still to be written of the messages begun so far. -/
def unsent (platform : Platform) : SenderPc → List Byte
  | .createPipe | .launch | .connect => greeting platform
  | .writing rest messages => rest ++ messages.flatten
  | .loop | .waiting => []

/-- What is left of the message being written. -/
def rest : SenderPc → List Byte
  | .writing rest _ => rest
  | .createPipe | .launch | .connect | .loop | .waiting => []

@[simp]
theorem unsent_connect (platform : Platform) :
    unsent platform .connect = greeting platform :=
  rfl

@[simp]
theorem unsent_writing (platform : Platform) (rest : List Byte) (messages : List (List Byte)) :
    unsent platform (.writing rest messages) = rest ++ messages.flatten :=
  rfl

@[simp]
theorem unsent_nextMessage (platform : Platform) (messages : List (List Byte)) :
    (nextMessage messages).unsent platform = messages.flatten := by
  cases messages <;> rfl

/-- A part and what is left behind it make up the message. -/
theorem unsent_afterPart (platform : Platform) {rest part : List Byte} (isPrefix : part <+: rest)
    (messages : List (List Byte)) :
    part ++ (afterPart rest messages part).unsent platform = rest ++ messages.flatten := by
  rcases isPrefix with ⟨left, rfl⟩
  simp only [afterPart]
  split
  · rename_i complete
    have nothing : left = [] := by
      rw [← List.length_eq_zero_iff]
      simp only [List.length_append] at complete
      omega
    simp [nothing]
  · simp [unsent]

/-- In the loop, or writing. -/
def Busy (pc : SenderPc) : Prop :=
  ¬pc.Early ∧ pc ≠ .waiting

theorem busy_nextMessage (messages : List (List Byte)) : (nextMessage messages).Busy := by
  cases messages <;> simp [nextMessage, Busy, Early]

theorem busy_afterPart (rest : List Byte) (messages : List (List Byte)) (part : List Byte) :
    (afterPart rest messages part).Busy := by
  simp only [afterPart]
  split
  · exact busy_nextMessage messages
  · simp [Busy, Early]

/-- No message which is still to be written is empty. -/
def NoEmptyMessage : SenderPc → Prop
  | .writing rest messages => rest ≠ [] ∧ [] ∉ messages
  | .createPipe | .launch | .connect | .loop | .waiting => True

theorem noEmptyMessage_nextMessage {messages : List (List Byte)} (nonempty : [] ∉ messages) :
    (nextMessage messages).NoEmptyMessage := by
  cases messages with
  | nil => trivial
  | cons message messages =>
      simp only [List.mem_cons, not_or] at nonempty
      exact ⟨Ne.symm nonempty.1, nonempty.2⟩

theorem noEmptyMessage_afterPart {rest part : List Byte} {messages : List (List Byte)}
    (nonempty : [] ∉ messages) : (afterPart rest messages part).NoEmptyMessage := by
  simp only [afterPart]
  split
  · exact noEmptyMessage_nextMessage nonempty
  · rename_i incomplete
    refine ⟨?_, nonempty⟩
    rw [ne_eq, List.drop_eq_nil_iff]
    exact incomplete

end SenderPc

/-- A call of the process with its result, or a signal which ends it. -/
inductive SenderCall where
  /-- The result, and whether `errno` is `EEXIST` after a failure. -/
  | createPipe (result : ℤ) (eexist : Bool)
  | fork (pid : ℤ)
  | createProcess (ok : Bool)
  | connect (result : ℤ)
  | getline
  /-- A part of the message goes into the pipe. -/
  | write (part : List Byte)
  /-- The call fails, and the rest of the message is dropped. -/
  | writeFails
  | endLoop
  | wait
  | sigpipe
  | kill
deriving DecidableEq, Repr

/-- The process with its locals. -/
structure Sender where
  pc : SenderPc
  /-- `hPipe`, or `PipeFileDescriptor`. -/
  pipe : ℤ
  loop : CommandLoop
  ended : Option SenderEnd
deriving DecidableEq

namespace Sender

/-- Before `main`, with the input which the user will type. -/
def initial (input : List Byte) : Sender :=
  { pc := .createPipe
    pipe := invalidHandle
    loop := CommandLoop.start input
    ended := none }

/-- The process exits. -/
def exit (sender : Sender) (code : ℤ) : Sender :=
  { sender with ended := some (.exited code) }

/-- The pipe is made; on Linux one that exists already will do. -/
def createPipe (platform : Platform) (sender : Sender) (result : ℤ) (eexist : Bool) : Sender :=
  match platform with
  | .linux =>
      if result < 0 then
        if !eexist then sender.exit 1 else { sender with pc := .launch }
      else { sender with pc := .launch }
  | .windows =>
      let sender := { sender with pipe := result }
      if result = invalidHandle then sender.exit 1 else { sender with pc := .launch }

/-- The parent after `fork`. -/
def fork (sender : Sender) (pid : ℤ) : Sender :=
  if pid = -1 then sender.exit 1 else { sender with pc := .connect }

/-- After `CreateProcessA`. -/
def createProcess (sender : Sender) (ok : Bool) : Sender :=
  if !ok then sender.exit 1 else { sender with pc := .connect }

/-- After `open` or `ConnectNamedPipe`, whose result is not looked at. -/
def connect (platform : Platform) (sender : Sender) (result : ℤ) : Sender :=
  match platform with
  | .linux => { sender with pc := .nextMessage (greetingMessages .linux), pipe := result }
  | .windows => { sender with pc := .nextMessage (greetingMessages .windows) }

/-- One pass of the loop up to its `write`, which gets `Command` with the line end. -/
def getline (platform : Platform) (sender : Sender) : Sender :=
  let loop := sender.loop.body platform
  { sender with pc := .writing loop.command [], loop := loop }

/-- `mkfifo` answers 0 or -1, `CreateNamedPipeA` a handle or `INVALID_HANDLE_VALUE`. -/
def CreateAnswer : Platform → ℤ → Prop
  | .linux, result => result = 0 ∨ result = -1
  | .windows, result => OpenAnswer [] result

instance (platform : Platform) (result : ℤ) : Decidable (CreateAnswer platform result) := by
  cases platform <;> unfold CreateAnswer <;> infer_instance

/-- One call of the process, or the end of it. -/
def step (platform : Platform) (sender : Sender) (call : SenderCall) : Option Sender :=
  if sender.ended ≠ none then none
  else
    match sender.pc, call with
    | .createPipe, .createPipe result eexist =>
        if CreateAnswer platform result then some (sender.createPipe platform result eexist)
        else none
    | .launch, .fork pid =>
        if platform = .linux ∧ (pid = -1 ∨ 0 < pid) then some (sender.fork pid) else none
    | .launch, .createProcess ok =>
        if platform = .windows then some (sender.createProcess ok) else none
    | .connect, .connect result =>
        if OpenAnswer [] result then some (sender.connect platform result) else none
    | .loop, .getline => if !sender.loop.quit then some (sender.getline platform) else none
    | .loop, .endLoop => if sender.loop.quit then some { sender with pc := .waiting } else none
    | .writing rest messages, .write part =>
        if part ≠ [] ∧ part <+: rest then some { sender with pc := .afterPart rest messages part }
        else none
    | .writing _ messages, .writeFails => some { sender with pc := .nextMessage messages }
    | .writing _ _, .sigpipe =>
        if platform = .linux then some { sender with ended := some .sigpipe } else none
    | .waiting, .wait => some (sender.exit 0)
    | _, .kill => some { sender with ended := some .killed }
    | _, _ => none

/-- What is still to be written of the messages begun so far. -/
def unsent (platform : Platform) (sender : Sender) : List Byte :=
  sender.pc.unsent platform

/--
The steps with the state they lead to.  A step of the first part of the program goes on to
the next call or ends the process with 1; on Linux only `open` sets the descriptor.
-/
inductive Step (platform : Platform) (sender : Sender) : SenderCall → Sender → Prop where
  | createFailed (result : ℤ) (eexist : Bool) (pipe : ℤ) (atPc : sender.pc = .createPipe)
      (samePipe : platform = .linux → pipe = sender.pipe) :
      Step platform sender (.createPipe result eexist)
        { sender with pipe := pipe, ended := some (.exited 1) }
  | created (result : ℤ) (eexist : Bool) (pipe : ℤ) (running : sender.ended = none)
      (atPc : sender.pc = .createPipe) (samePipe : platform = .linux → pipe = sender.pipe)
      (opened : platform = .windows → 0 ≤ pipe) :
      Step platform sender (.createPipe result eexist) { sender with pc := .launch, pipe := pipe }
  | forkFailed (atPc : sender.pc = .launch) :
      Step platform sender (.fork (-1)) { sender with ended := some (.exited 1) }
  | forked (pid : ℤ) (running : sender.ended = none) (atPc : sender.pc = .launch)
      (positive : 0 < pid) :
      Step platform sender (.fork pid) { sender with pc := .connect }
  | createProcessFailed (atPc : sender.pc = .launch) :
      Step platform sender (.createProcess false) { sender with ended := some (.exited 1) }
  | createdProcess (running : sender.ended = none) (atPc : sender.pc = .launch) :
      Step platform sender (.createProcess true) { sender with pc := .connect }
  | connect (result pipe : ℤ) (running : sender.ended = none) (atPc : sender.pc = .connect)
      (isResult : platform = .linux → pipe = result)
      (samePipe : platform = .windows → pipe = sender.pipe) :
      Step platform sender (.connect result)
        { sender with pc := .nextMessage (greetingMessages platform), pipe := pipe }
  | getline (running : sender.ended = none) (atPc : sender.pc = .loop) :
      Step platform sender .getline
        { sender with
          pc := .writing (sender.loop.body platform).command []
          loop := sender.loop.body platform }
  | endLoop (running : sender.ended = none) (atPc : sender.pc = .loop)
      (quits : sender.loop.quit = true) :
      Step platform sender .endLoop { sender with pc := .waiting }
  | write (rest part : List Byte) (messages : List (List Byte)) (running : sender.ended = none)
      (atPc : sender.pc = .writing rest messages) (nonempty : part ≠ [])
      (isPrefix : part <+: rest) :
      Step platform sender (.write part) { sender with pc := .afterPart rest messages part }
  | writeFails (rest : List Byte) (messages : List (List Byte)) (running : sender.ended = none)
      (atPc : sender.pc = .writing rest messages) :
      Step platform sender .writeFails { sender with pc := .nextMessage messages }
  | sigpipe (rest : List Byte) (messages : List (List Byte))
      (atPc : sender.pc = .writing rest messages) :
      Step platform sender .sigpipe { sender with ended := some .sigpipe }
  | wait (atPc : sender.pc = .waiting) :
      Step platform sender .wait { sender with ended := some (.exited 0) }
  | kill : Step platform sender .kill { sender with ended := some .killed }

section Sound

variable {platform : Platform} {sender : Sender}

theorem createPipe_sound (running : sender.ended = none) (atPc : sender.pc = .createPipe)
    {result : ℤ} (answer : CreateAnswer platform result) (eexist : Bool) :
    Step platform sender (.createPipe result eexist)
      (sender.createPipe platform result eexist) := by
  cases platform with
  | linux =>
      simp only [createPipe]
      split
      · split
        · exact .createFailed result eexist sender.pipe atPc (fun _ => rfl)
        · exact .created result eexist sender.pipe running atPc (fun _ => rfl) (by simp)
      · exact .created result eexist sender.pipe running atPc (fun _ => rfl) (by simp)
  | windows =>
      simp only [createPipe]
      split
      · exact .createFailed result eexist result atPc (by simp)
      · rename_i valid
        rcases answer with invalid | ⟨nonneg, _⟩
        · exact absurd invalid valid
        · exact .created result eexist result running atPc (by simp) (fun _ => nonneg)

theorem fork_sound (running : sender.ended = none) (atPc : sender.pc = .launch) {pid : ℤ}
    (answer : pid = -1 ∨ 0 < pid) : Step platform sender (.fork pid) (sender.fork pid) := by
  rcases answer with rfl | positive
  · exact .forkFailed atPc
  · have started : pid ≠ -1 := by omega
    rw [fork, if_neg started]
    exact .forked pid running atPc positive

theorem createProcess_sound (running : sender.ended = none) (atPc : sender.pc = .launch)
    (ok : Bool) : Step platform sender (.createProcess ok) (sender.createProcess ok) := by
  cases ok with
  | true => exact .createdProcess running atPc
  | false => exact .createProcessFailed atPc

theorem connect_sound (running : sender.ended = none) (atPc : sender.pc = .connect)
    (result : ℤ) : Step platform sender (.connect result) (sender.connect platform result) := by
  cases platform with
  | linux => exact .connect result result running atPc (fun _ => rfl) (by simp)
  | windows => exact .connect result sender.pipe running atPc (by simp) (fun _ => rfl)

theorem step_sound {next : Sender} {call : SenderCall}
    (stepEq : sender.step platform call = some next) : Step platform sender call next := by
  simp only [step] at stepEq
  split at stepEq
  · simp at stepEq
  rename_i notEnded
  have running : sender.ended = none := by simpa using notEnded
  split at stepEq
  case h_1 result eexist atPc =>
      split at stepEq
      · rename_i answer
        simp only [Option.some.injEq] at stepEq
        subst next
        exact createPipe_sound running atPc answer eexist
      · simp at stepEq
  case h_2 pid atPc =>
      split at stepEq
      · rename_i possible
        simp only [Option.some.injEq] at stepEq
        subst next
        exact fork_sound running atPc possible.2
      · simp at stepEq
  case h_3 ok atPc =>
      split at stepEq
      · simp only [Option.some.injEq] at stepEq
        subst next
        exact createProcess_sound running atPc ok
      · simp at stepEq
  case h_4 result atPc =>
      split at stepEq
      · simp only [Option.some.injEq] at stepEq
        subst next
        exact connect_sound running atPc result
      · simp at stepEq
  case h_5 atPc =>
      split at stepEq
      · simp only [Option.some.injEq] at stepEq
        subst next
        exact .getline running atPc
      · simp at stepEq
  case h_6 atPc =>
      split at stepEq
      · rename_i quits
        simp only [Option.some.injEq] at stepEq
        subst next
        exact .endLoop running atPc quits
      · simp at stepEq
  case h_7 rest messages part atPc =>
      split at stepEq
      · rename_i possible
        simp only [Option.some.injEq] at stepEq
        subst next
        exact .write rest part messages running atPc possible.1 possible.2
      · simp at stepEq
  case h_8 rest messages atPc =>
      simp only [Option.some.injEq] at stepEq
      subst next
      exact .writeFails rest messages running atPc
  case h_9 rest messages atPc =>
      split at stepEq
      · simp only [Option.some.injEq] at stepEq
        subst next
        exact .sigpipe rest messages atPc
      · simp at stepEq
  case h_10 atPc =>
      simp only [Option.some.injEq] at stepEq
      subst next
      exact .wait atPc
  case h_11 =>
      simp only [Option.some.injEq] at stepEq
      subst next
      exact .kill
  case h_12 => simp at stepEq

end Sound

/-! ## What has been written, and what is still to be written -/

section Books

/-- The process has its end of the pipe, or is at the call which opens it. -/
def PipeOpen (sender : Sender) : Prop :=
  sender.pc = .connect ∨ 0 ≤ sender.pipe

instance (sender : Sender) : Decidable sender.PipeOpen := by
  unfold PipeOpen
  infer_instance

/-- What a call puts into the pipe. -/
def bytes : SenderCall → List Byte
  | .write part => part
  | _ => []

/-- The call reads a line. -/
def isGetline : SenderCall → Bool
  | .getline => true
  | _ => false

variable {platform : Platform} {input : List Byte} {calls : List SenderCall}
  {call : SenderCall} {sender next : Sender}

/-- What a step sends comes off what was to be sent; only `getline` adds to that. -/
theorem Step.sends (step : Step platform sender call next) :
    ∃ added, next.loop.written = sender.loop.written ++ added ∧
      (bytes call ++ next.unsent platform).Sublist (sender.unsent platform ++ added) ∧
        (call ≠ .writeFails →
          bytes call ++ next.unsent platform = sender.unsent platform ++ added) := by
  have conserves : ∀ added, next.loop.written = sender.loop.written ++ added →
      bytes call ++ next.unsent platform = sender.unsent platform ++ added →
        ∃ added, next.loop.written = sender.loop.written ++ added ∧
          (bytes call ++ next.unsent platform).Sublist (sender.unsent platform ++ added) ∧
            (call ≠ .writeFails →
              bytes call ++ next.unsent platform = sender.unsent platform ++ added) := by
    intro added writtenEq unsentEq
    exact ⟨added, writtenEq, unsentEq ▸ List.Sublist.refl _, fun _ => unsentEq⟩
  cases step with
  | getline running atPc =>
      apply conserves (sender.loop.body platform).command
      · rw [CommandLoop.body_eq]
      · simp [bytes, unsent, SenderPc.unsent, atPc]
  | write rest part messages running atPc nonempty isPrefix =>
      apply conserves [] (List.append_nil _).symm
      simp only [bytes, unsent, atPc, List.append_nil]
      exact SenderPc.unsent_afterPart platform isPrefix messages
  | writeFails rest messages running atPc =>
      refine ⟨[], by simp, ?_, by simp⟩
      simp [bytes, unsent, atPc]
  | connect result pipe running atPc isResult samePipe =>
      apply conserves [] (List.append_nil _).symm
      simp [bytes, unsent, atPc, greeting]
  | _ =>
      apply conserves [] (List.append_nil _).symm
      simp [bytes, unsent, SenderPc.unsent, *]

theorem Step.loop_eq (step : Step platform sender call next) :
    next.loop = if isGetline call then sender.loop.body platform else sender.loop := by
  cases step <;> rfl

/-- Only the connection gives the process its end of the pipe, on Linux. -/
theorem Step.pipe_cases (step : Step .linux sender call next) :
    next.pipe = sender.pipe ∨ call = .connect next.pipe ∧ sender.pc = .connect := by
  cases step with
  | createFailed result eexist pipe atPc samePipe => exact Or.inl (samePipe rfl)
  | created result eexist pipe running atPc samePipe opened => exact Or.inl (samePipe rfl)
  | connect result pipe running atPc isResult samePipe =>
      have pipeEq : pipe = result := isResult rfl
      subst pipeEq
      exact Or.inr ⟨rfl, atPc⟩
  | _ => exact Or.inl rfl

/-- On Linux the process loses its end of the pipe only by an `open` that fails. -/
theorem Step.pipeOpen (step : Step .linux sender call next) (opened : sender.PipeOpen) :
    next.PipeOpen ∨ ∃ result, call = .connect result ∧ result < 0 := by
  have keeps : sender.pc ≠ .connect → 0 ≤ sender.pipe := fun notConnect =>
    opened.resolve_left notConnect
  cases step with
  | createFailed result eexist pipe atPc samePipe =>
      rw [samePipe rfl]
      exact Or.inl (Or.inr (keeps (by simp [atPc])))
  | created result eexist pipe running atPc samePipe valid =>
      rw [samePipe rfl]
      exact Or.inl (Or.inr (keeps (by simp [atPc])))
  | forked pid running atPc positive => exact Or.inl (Or.inl rfl)
  | createdProcess running atPc => exact Or.inl (Or.inl rfl)
  | connect result pipe running atPc isResult samePipe =>
      rw [isResult rfl]
      by_cases valid : 0 ≤ result
      · exact Or.inl (Or.inr valid)
      · exact Or.inr ⟨result, rfl, by omega⟩
  | kill => exact Or.inl opened
  | _ => exact Or.inl (Or.inr (keeps (by simp [*])))

/-- At the start nothing has been launched. -/
theorem Step.start_cases (step : Step platform sender call next)
    (atStart : next.pc = .createPipe ∨ next.pc = .launch) :
    (sender.pc = .createPipe ∨ sender.pc = .launch) ∧
      (∀ pid, call = .fork pid → pid = -1) ∧ call ≠ .createProcess true := by
  have notBusy : ¬next.pc.Busy := by
    rintro ⟨notEarly, _⟩
    rcases atStart with atPc | atPc <;> simp [atPc, SenderPc.Early] at notEarly
  cases step with
  | connect result pipe running atPc isResult samePipe =>
      exact absurd (SenderPc.busy_nextMessage _) notBusy
  | write rest part messages running atPc nonempty isPrefix =>
      exact absurd (SenderPc.busy_afterPart _ _ _) notBusy
  | writeFails rest messages running atPc => exact absurd (SenderPc.busy_nextMessage _) notBusy
  | _ => simp_all

/-- Once past the start the process stays there, and it does not come behind the loop. -/
theorem Step.pc_cases (step : Step platform sender call next)
    (goesOn : sender.loop.quit = false) (inLoop : sender.pc ≠ .waiting) :
    next.pc ≠ .waiting ∧
      (next.pc.Early → sender.pc.Early ∧ (platform = .linux → next.pipe = sender.pipe)) := by
  have busy : next.pc.Busy → next.pc ≠ .waiting ∧
      (next.pc.Early → sender.pc.Early ∧ (platform = .linux → next.pipe = sender.pipe)) := by
    rintro ⟨notEarly, notWaiting⟩
    exact ⟨notWaiting, fun early => absurd early notEarly⟩
  cases step with
  | createFailed result eexist pipe atPc samePipe =>
      simpa [atPc, SenderPc.Early] using samePipe
  | created result eexist pipe running atPc samePipe opened =>
      simpa [atPc, SenderPc.Early] using samePipe
  | forkFailed atPc => simp [atPc]
  | forked pid running atPc positive => simp [atPc, SenderPc.Early]
  | createProcessFailed atPc => simp [atPc]
  | createdProcess running atPc => simp [atPc, SenderPc.Early]
  | connect result pipe running atPc isResult samePipe => exact busy (SenderPc.busy_nextMessage _)
  | getline running atPc => simp [SenderPc.Early]
  | endLoop running atPc quits => simp [goesOn] at quits
  | write rest part messages running atPc nonempty isPrefix =>
      exact busy (SenderPc.busy_afterPart _ _ _)
  | writeFails rest messages running atPc => exact busy (SenderPc.busy_nextMessage _)
  | sigpipe rest messages atPc => simp [atPc]
  | wait atPc => exact absurd atPc inLoop
  | kill => simp [inLoop]

/-- On Windows the process has its end of the pipe from `CreateNamedPipeA` on. -/
theorem Step.opened (step : Step platform sender call next)
    (before : platform = .windows → sender.ended = none → sender.pc ≠ .createPipe →
      0 ≤ sender.pipe) :
    platform = .windows → next.ended = none → next.pc ≠ .createPipe → 0 ≤ next.pipe := by
  intro onWindows
  cases step with
  | connect result pipe running atPc isResult samePipe =>
      intro _ _
      rw [samePipe onWindows]
      exact before onWindows running (by simp [atPc])
  | _ => simp_all

theorem Step.noEmptyMessage (step : Step platform sender call next)
    (noEmpty : sender.pc.NoEmptyMessage) : next.pc.NoEmptyMessage := by
  cases step with
  | connect result pipe running atPc isResult samePipe =>
      apply SenderPc.noEmptyMessage_nextMessage
      cases platform <;> decide
  | getline running atPc =>
      rw [CommandLoop.body_eq]
      refine ⟨?_, by simp⟩
      cases platform <;> simp [terminator]
  | write rest part messages running atPc nonempty isPrefix =>
      rw [atPc] at noEmpty
      exact SenderPc.noEmptyMessage_afterPart noEmpty.2
  | writeFails rest messages running atPc =>
      rw [atPc] at noEmpty
      exact SenderPc.noEmptyMessage_nextMessage noEmpty.2
  | created result eexist pipe running atPc samePipe opened => trivial
  | forked pid running atPc positive => trivial
  | createdProcess running atPc => trivial
  | endLoop running atPc quits => trivial
  | _ => exact noEmpty

/-- How a step ends the process: with 1 before anything was started, or by a signal. -/
theorem Step.ended_cases (step : Step platform sender call next) (inLoop : sender.pc ≠ .waiting) :
    next.ended = none ∨
      next.ended = some (.exited 1) ∧ (next.pc = .createPipe ∨ next.pc = .launch) ∨
        next.ended = some .sigpipe ∧ call = .sigpipe ∨
          next.ended = some .killed ∧ call = .kill := by
  cases step <;> simp_all

/-- The state of the process after `calls`. -/
structure Books (platform : Platform) (input : List Byte) (calls : List SenderCall)
    (sender : Sender) : Prop where
  loop_eq : sender.loop = commandLoop platform input (calls.countP isGetline)
  sublist : (calls.flatMap bytes ++ sender.unsent platform).Sublist
    (greeting platform ++ sender.loop.written)
  conserved : .writeFails ∉ calls →
    calls.flatMap bytes ++ sender.unsent platform = greeting platform ++ sender.loop.written
  inLoop : sender.pc ≠ .waiting
  noEmpty : sender.pc.NoEmptyMessage
  unconnected : platform = .linux → sender.pc.Early → sender.pipe = invalidHandle
  opened : platform = .windows → sender.ended = none → sender.pc ≠ .createPipe → 0 ≤ sender.pipe
  exited : ∀ code, sender.ended = some (.exited code) →
    code = 1 ∧ (sender.pc = .createPipe ∨ sender.pc = .launch)
  killed : sender.ended = some .killed → .kill ∈ calls

theorem books_initial (platform : Platform) (input : List Byte) :
    Books platform input [] (initial input) where
  loop_eq := rfl
  sublist := by simp [initial, unsent, SenderPc.unsent, CommandLoop.start]
  conserved := by simp [initial, unsent, SenderPc.unsent, CommandLoop.start]
  inLoop := by simp [initial]
  noEmpty := trivial
  unconnected := fun _ _ => rfl
  opened := fun _ _ past => absurd rfl past
  exited := by simp [initial]
  killed := by simp [initial]

theorem Step.books (step : Step platform sender call next)
    (books : Books platform input calls sender) :
    Books platform input (calls ++ [call]) next := by
  rcases step.sends with ⟨added, writtenEq, isSublist, isEq⟩
  have goesOn : sender.loop.quit = false := by
    rw [books.loop_eq]
    exact commandLoop_quit platform input _
  rcases step.pc_cases goesOn books.inLoop with ⟨inLoop, early⟩
  have ended := step.ended_cases books.inLoop
  have bytesEq : (calls ++ [call]).flatMap bytes = calls.flatMap bytes ++ bytes call := by simp
  refine ⟨?_, ?_, ?_, inLoop, step.noEmptyMessage books.noEmpty, ?_, step.opened books.opened,
    ?_, ?_⟩
  · rw [step.loop_eq, List.countP_append, List.countP_singleton, books.loop_eq]
    split
    · rw [commandLoop_succ]
    · rfl
  · rw [bytesEq, writtenEq, List.append_assoc, ← List.append_assoc (greeting platform)]
    apply (isSublist.append_left _).trans
    rw [← List.append_assoc]
    exact books.sublist.append_right _
  · intro noFailure
    have callsNoFailure : .writeFails ∉ calls := fun fails => noFailure (by simp [fails])
    have notFailure : call ≠ .writeFails := by
      rintro rfl
      simp at noFailure
    rw [bytesEq, writtenEq, List.append_assoc, isEq notFailure, ← List.append_assoc,
      books.conserved callsNoFailure, List.append_assoc]
  · intro onLinux nextEarly
    rcases early nextEarly with ⟨wasEarly, samePipe⟩
    rw [samePipe onLinux, books.unconnected onLinux wasEarly]
  · intro code exited
    rcases ended with none | ⟨one, early⟩ | ⟨signal, _⟩ | ⟨signal, _⟩
    · simp [none] at exited
    · rw [one] at exited
      simp only [Option.some.injEq, SenderEnd.exited.injEq] at exited
      exact ⟨exited.symm, early⟩
    · simp [signal] at exited
    · simp [signal] at exited
  · intro isKilled
    rcases ended with none | ⟨one, _⟩ | ⟨signal, _⟩ | ⟨_, rfl⟩
    · simp [none] at isKilled
    · simp [one] at isKilled
    · simp [signal] at isKilled
    · simp

theorem books_of_run {calls : List SenderCall} {final : Sender}
    (runs : Transition.run (step platform) (initial input) calls = some final) :
    Books platform input calls final :=
  Transition.history_invariant (Books platform input) (books_initial platform input)
    (fun _ _ _ _ books stepEq => (step_sound stepEq).books books) runs

/-- The calls by which the process goes on with what it has begun. -/
def Continues : SenderCall → Prop
  | .connect result => 0 ≤ result
  | .write _ => True
  | _ => False

/-- Going on, the process has its end of the pipe, or gets it. -/
theorem Step.pipe_nonneg (step : Step platform sender call next) (continues : Continues call)
    (connected : 0 ≤ sender.pipe ∨ platform = .linux ∧ sender.pc = .connect) :
    0 ≤ next.pipe := by
  cases step with
  | connect result pipe running atPc isResult samePipe =>
      cases platform with
      | linux => rwa [isResult rfl]
      | windows =>
          rw [samePipe rfl]
          exact connected.resolve_right (by simp)
  | write rest part messages running atPc nonempty isPrefix =>
      exact connected.resolve_right (by simp [atPc])
  | _ => exact absurd continues id

/--
Whether a blocking write can put this much at once into a pipe of some capacity which holds
`held` bytes: the rest of its message, or as much as there is room for if that is too long
for the whole pipe.
-/
def Fits (capacity held : ℕ) (sender : Sender) : SenderCall → Prop
  | .write part =>
      held + part.length ≤ capacity ∧
        (part = sender.pc.rest ∨
          capacity < sender.pc.rest.length ∧ held + part.length = capacity)
  | _ => True

instance (capacity held : ℕ) (sender : Sender) :
    (call : SenderCall) → Decidable (sender.Fits capacity held call)
  | .write _ => inferInstanceAs (Decidable (_ ∧ _))
  | .createPipe _ _ | .fork _ | .createProcess _ | .connect _ | .getline | .writeFails |
    .endLoop | .wait | .sigpipe | .kill => inferInstanceAs (Decidable True)

/-- As long as something is still to be written, the process can go on: an empty pipe has room. -/
theorem exists_continues {capacity : ℕ} (room : 0 < capacity) (running : sender.ended = none)
    (noEmpty : sender.pc.NoEmptyMessage)
    (launched : ¬(sender.pc = .createPipe ∨ sender.pc = .launch))
    (unsent : sender.unsent platform ≠ []) :
    ∃ call next, Continues call ∧ sender.Fits capacity 0 call ∧
      sender.step platform call = some next := by
  cases pcEq : sender.pc with
  | connect =>
      have answer : OpenAnswer [] 0 := by decide
      refine ⟨.connect 0, sender.connect platform 0, le_refl (0 : ℤ), trivial, ?_⟩
      simp [step, running, pcEq, answer]
  | writing rest messages =>
      rw [pcEq] at noEmpty
      have nonempty : rest.take capacity ≠ [] := by
        simp [noEmpty.1, Nat.ne_of_gt room]
      have isPrefix : rest.take capacity <+: rest := List.take_prefix _ _
      refine ⟨.write (rest.take capacity),
        { sender with pc := .afterPart rest messages (rest.take capacity) }, trivial, ?_, ?_⟩
      · simp only [Fits, pcEq, SenderPc.rest, Nat.zero_add, List.length_take]
        refine ⟨Nat.min_le_left _ _, ?_⟩
        by_cases short : rest.length ≤ capacity
        · exact Or.inl (List.take_of_length_le short)
        · exact Or.inr ⟨by omega, by omega⟩
      · simp [step, running, pcEq, nonempty, isPrefix]
  | createPipe => exact absurd (Or.inl pcEq) launched
  | launch => exact absurd (Or.inr pcEq) launched
  | loop => simp [Sender.unsent, SenderPc.unsent, pcEq] at unsent
  | waiting => simp [Sender.unsent, SenderPc.unsent, pcEq] at unsent

/-- Going on, the process reads no line; what it writes comes off what was to be sent. -/
theorem Step.unsent_eq (step : Step platform sender call next) (continues : Continues call) :
    sender.unsent platform = bytes call ++ next.unsent platform := by
  rcases step.sends with ⟨added, writtenEq, _, sends⟩
  have noGetline : isGetline call = false := by
    cases call <;> simp_all [Continues, isGetline]
  have notFails : call ≠ .writeFails := by
    rintro rfl
    exact continues
  have nothing : added = [] := by
    rw [step.loop_eq, noGetline] at writtenEq
    simpa using writtenEq.symm
  simpa [nothing] using (sends notFails).symm

theorem Step.ended_eq_none (step : Step platform sender call next) (continues : Continues call) :
    next.ended = none := by
  cases step with
  | connect result pipe running atPc isResult samePipe => exact running
  | write rest part messages running atPc nonempty isPrefix => exact running
  | _ => exact absurd continues id

/-- An upper bound for the calls until `missing` more bytes have been written. -/
def owed (missing : ℕ) (sender : Sender) : ℕ :=
  if sender.pc = .connect then missing + 1 else missing

/-- Only the process itself changes what it still has to do. -/
theorem Step.owed_le (step : Step platform sender call next)
    (launched : ¬(sender.pc = .createPipe ∨ sender.pc = .launch)) {written count : ℕ}
    (missing : written < count) :
    next.owed (count - (written + (bytes call).length)) ≤ sender.owed (count - written) ∧
      (Continues call →
        next.owed (count - (written + (bytes call).length)) < sender.owed (count - written)) := by
  have notConnect : ∀ {pc : SenderPc}, pc.Busy → pc ≠ .connect := by
    rintro pc ⟨notEarly, _⟩ rfl
    exact notEarly trivial
  cases step with
  | connect result pipe running atPc isResult samePipe =>
      simp [owed, bytes, atPc, notConnect (SenderPc.busy_nextMessage _)]
  | write rest part messages running atPc nonempty isPrefix =>
      have positive : 0 < part.length := List.length_pos_of_ne_nil nonempty
      simp only [owed, bytes, atPc, notConnect (SenderPc.busy_afterPart rest messages part),
        reduceCtorEq, if_false]
      omega
  | writeFails rest messages running atPc =>
      simp [owed, bytes, atPc, notConnect (SenderPc.busy_nextMessage _), Continues]
  | createFailed result eexist pipe atPc samePipe => exact absurd (Or.inl atPc) launched
  | created result eexist pipe running atPc samePipe opened =>
      exact absurd (Or.inl atPc) launched
  | forkFailed atPc => exact absurd (Or.inr atPc) launched
  | forked pid running atPc positive => exact absurd (Or.inr atPc) launched
  | createProcessFailed atPc => exact absurd (Or.inr atPc) launched
  | createdProcess running atPc => exact absurd (Or.inr atPc) launched
  | _ => simp_all [owed, bytes, Continues]

theorem Step.loop_written_isPrefix (step : Step platform sender call next) :
    sender.loop.written <+: next.loop.written := by
  rcases step.sends with ⟨added, writtenEq, _⟩
  rw [writtenEq]
  exact List.prefix_append _ _

end Books

end Sender

end MiddleMan
