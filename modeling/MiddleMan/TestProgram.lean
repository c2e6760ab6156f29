import MiddleMan.Platform
import MiddleMan.Library.Getline
import Mathlib.Data.List.TakeDrop

/-!
# The sender's command loop

`LinuxMain` and `WindowsMain` of the test program end in the same loop: read a line,
append the line end, write it to the pipe, and compare it with the quit command.  They
differ in the line end, and in that `Command` is declared before the loop on Linux and
inside it on Windows.

The comparison comes after the line end was appended, and nothing looks at the state of
`std::cin`.  So the loop writes the lines it is given as it should, and then goes on.
-/

namespace MiddleMan

/-- The line feed. -/
def newline : Byte := 0x0a#8

/-- The carriage return. -/
def carriageReturn : Byte := 0x0d#8

/-- The text `q`. -/
def quitCommand : List Byte := [0x71#8]

/-- What is appended to `Command`. -/
def terminator : Platform → List Byte
  | .linux => [newline]
  | .windows => [carriageReturn, newline]

/-- A string literal without its terminating zero. -/
def literal (text : String) : List Byte :=
  text.toList.map fun character => BitVec.ofNat 8 character.toNat

/-- The messages which are written to the pipe before the loop. -/
def greetingMessages : Platform → List (List Byte)
  | .linux => []
  | .windows =>
      [literal "echo Hello from parent\r\n", literal "aaa\n", literal "seek @main\n",
        literal "v\n"]

/-- What these messages put into the pipe. -/
def greeting (platform : Platform) : List Byte :=
  (greetingMessages platform).flatten

/-- The variables of the loop, the input stream, and what was written to the pipe. -/
structure CommandLoop where
  cin : Istream Byte
  command : List Byte
  quit : Bool
  written : List Byte
deriving DecidableEq

namespace CommandLoop

/-- Before the loop. -/
def start (input : List Byte) : CommandLoop :=
  { cin := Istream.ofText input
    command := []
    quit := false
    written := [] }

/-- What the two loop bodies share, given `Command` before `std::getline`. -/
def iteration (lineEnd : List Byte) (loop : CommandLoop) (command : List Byte) : CommandLoop :=
  let (cin, command) := loop.cin.getline newline command
  let command := command ++ lineEnd
  { cin := cin
    command := command
    -- compared with the line end already appended
    quit := if command = quitCommand then true else loop.quit
    written := loop.written ++ command }

/-- The loop body of `LinuxMain`: `Command` keeps its contents between iterations. -/
def linuxMain (loop : CommandLoop) : CommandLoop :=
  loop.iteration (terminator .linux) loop.command

/-- The loop body of `WindowsMain`: `Command` is constructed in every iteration. -/
def windowsMain (loop : CommandLoop) : CommandLoop :=
  loop.iteration (terminator .windows) []

/-- One pass of the loop. -/
def body : Platform → CommandLoop → CommandLoop
  | .linux => linuxMain
  | .windows => windowsMain

end CommandLoop

/-- The state after some number of iterations; a loop whose `quit` is true has stopped. -/
def commandLoop (platform : Platform) (input : List Byte) : ℕ → CommandLoop
  | 0 => CommandLoop.start input
  | iterations + 1 =>
      let loop := commandLoop platform input iterations
      if !loop.quit then loop.body platform else loop

/-- The lines up to and including the first quit command. -/
def sentLines : List (List Byte) → List (List Byte)
  | [] => []
  | line :: lines => if line = quitCommand then [line] else line :: sentLines lines

/-- The lines as the loop sends them. -/
def withLineEnds (platform : Platform) (lines : List (List Byte)) : List Byte :=
  lines.flatMap fun line => line ++ terminator platform

/-- What the loop is meant to send for an input. -/
def expected (platform : Platform) (input : List Byte) : List Byte :=
  withLineEnds platform (sentLines (splitLines newline input))

/-- The loop ends after some number of passes. -/
def Terminates (platform : Platform) (input : List Byte) : Prop :=
  ∃ iterations, (commandLoop platform input iterations).quit = true

/-- From some iteration on, what has been written is `stream`. -/
def SendsExactly (platform : Platform) (input stream : List Byte) : Prop :=
  ∃ iterations, ∀ later, iterations ≤ later →
    (commandLoop platform input later).written = stream

namespace CommandLoop

variable {loop : CommandLoop}

/-- With a line end appended, no line is the quit command. -/
theorem append_terminator_ne_quitCommand (platform : Platform) (command : List Byte) :
    command ++ terminator platform ≠ quitCommand := by
  intro isQuit
  have sameLast := congrArg List.getLast? isQuit
  rw [List.getLast?_append] at sameLast
  cases platform <;> simp [terminator, newline, quitCommand] at sameLast

/-- What `Command` holds when `getline` finds the stream exhausted. -/
def kept : Platform → CommandLoop → List Byte
  | .linux, loop => loop.command
  | .windows, _ => []

theorem body_eq (platform : Platform) (loop : CommandLoop) :
    loop.body platform =
      { cin := (loop.cin.getline newline (kept platform loop)).1
        command := (loop.cin.getline newline (kept platform loop)).2 ++ terminator platform
        quit := loop.quit
        written :=
          loop.written ++
            ((loop.cin.getline newline (kept platform loop)).2 ++ terminator platform) } := by
  cases platform with
  | linux =>
      simp only [body, linuxMain, iteration]
      rw [if_neg (append_terminator_ne_quitCommand _ _)]
      rfl
  | windows =>
      simp only [body, windowsMain, iteration]
      rw [if_neg (append_terminator_ne_quitCommand _ _)]
      rfl

theorem body_of_line (platform : Platform) {line : List Byte} {lines : List (List Byte)}
    (remaining : loop.cin.Remaining newline (line :: lines)) :
    (loop.body platform).written = loop.written ++ (line ++ terminator platform) ∧
      (loop.body platform).cin.Remaining newline lines := by
  rcases remaining.getline_cons (kept platform loop) with ⟨lineEq, nextRemaining⟩
  rw [body_eq, lineEq]
  exact ⟨rfl, nextRemaining⟩

/-- An iteration at the end of the input sends what `Command` holds then. -/
theorem body_at_end (platform : Platform) (remaining : loop.cin.Remaining newline []) :
    (loop.body platform).command =
        (if loop.cin.good then [] else kept platform loop) ++ terminator platform ∧
      (loop.body platform).written = loop.written ++ (loop.body platform).command ∧
        (loop.body platform).cin.Remaining newline [] ∧
          (loop.body platform).cin.good = false := by
  rcases remaining.getline_nil (kept platform loop) with ⟨lineEq, nextRemaining, notGood⟩
  rw [body_eq, lineEq]
  exact ⟨rfl, rfl, nextRemaining, notGood⟩

theorem length_written_lt (platform : Platform) (loop : CommandLoop) :
    loop.written.length < (loop.body platform).written.length := by
  have lineEnd : 0 < (terminator platform).length := by cases platform <;> decide
  rw [body_eq]
  simp only [List.length_append]
  omega

end CommandLoop

section Loop

variable (platform : Platform) (input : List Byte)

/-- `quit` is false before every iteration: the loop never stops. -/
theorem commandLoop_quit (iterations : ℕ) :
    (commandLoop platform input iterations).quit = false := by
  induction iterations with
  | zero => rfl
  | succ iterations ih =>
      simp only [commandLoop, ih, Bool.not_false, if_true]
      rw [CommandLoop.body_eq]
      exact ih

theorem commandLoop_succ (iterations : ℕ) :
    commandLoop platform input (iterations + 1) =
      (commandLoop platform input iterations).body platform := by
  simp only [commandLoop, commandLoop_quit, Bool.not_false, if_true]

/-- As long as the input lasts, each iteration sends the next line. -/
theorem commandLoop_through {iterations : ℕ}
    (lasts : iterations ≤ (splitLines newline input).length) :
    (commandLoop platform input iterations).written =
        withLineEnds platform ((splitLines newline input).take iterations) ∧
      (commandLoop platform input iterations).cin.Remaining newline
        ((splitLines newline input).drop iterations) := by
  induction iterations with
  | zero => exact ⟨rfl, Istream.remaining_ofText input⟩
  | succ iterations ih =>
      rcases ih (by omega) with ⟨writtenEq, remaining⟩
      rw [List.drop_eq_getElem_cons lasts] at remaining
      rcases CommandLoop.body_of_line platform remaining with ⟨nextWritten, next⟩
      rw [commandLoop_succ]
      refine ⟨?_, next⟩
      rw [nextWritten, writtenEq, List.take_add_one, List.getElem?_eq_getElem lasts,
        withLineEnds, withLineEnds, List.flatMap_append]
      simp only [Option.toList_some, List.flatMap_cons, List.flatMap_nil, List.append_nil]

/-- Once the input is used up it stays so, and the first further `getline` finds its end. -/
theorem commandLoop_at_end (more : ℕ) :
    (commandLoop platform input ((splitLines newline input).length + more)).cin.Remaining
        newline [] ∧
      (0 < more →
        (commandLoop platform input ((splitLines newline input).length + more)).cin.good =
          false) := by
  induction more with
  | zero =>
      have through := commandLoop_through platform input (Nat.le_refl _)
      rw [List.drop_length] at through
      exact ⟨through.2, by simp⟩
  | succ more ih =>
      rw [← Nat.add_assoc, commandLoop_succ]
      have atEnd := CommandLoop.body_at_end platform ih.1
      exact ⟨atEnd.2.2.1, fun _ => atEnd.2.2.2⟩

theorem le_length_written (iterations : ℕ) :
    iterations ≤ (commandLoop platform input iterations).written.length := by
  induction iterations with
  | zero => exact Nat.zero_le _
  | succ iterations ih =>
      rw [commandLoop_succ]
      exact Nat.lt_of_le_of_lt ih (CommandLoop.length_written_lt platform _)

end Loop

/-- On Windows every iteration after the end of the input sends an empty line. -/
theorem windowsMain_after_end (input : List Byte) (more : ℕ) :
    (commandLoop .windows input ((splitLines newline input).length + more)).written =
      withLineEnds .windows (splitLines newline input ++ List.replicate more []) := by
  induction more with
  | zero =>
      have through := commandLoop_through .windows input (Nat.le_refl _)
      rw [List.take_length] at through
      simpa using through.1
  | succ more ih =>
      have atEnd := commandLoop_at_end .windows input more
      have sends := CommandLoop.body_at_end .windows atEnd.1
      rw [← Nat.add_assoc, commandLoop_succ, sends.2.1, sends.1, ih, List.replicate_succ',
        ← List.append_assoc]
      simp [withLineEnds, CommandLoop.kept]

/--
On Linux `Command` is not erased any more once the end of the input was found, so every
further iteration sends the one before again, with one more newline.
-/
theorem linuxMain_after_end (input : List Byte) {more : ℕ} (found : 0 < more) :
    (commandLoop .linux input ((splitLines newline input).length + (more + 1))).command =
        (commandLoop .linux input ((splitLines newline input).length + more)).command ++
          [newline] ∧
      (commandLoop .linux input ((splitLines newline input).length + (more + 1))).written =
        (commandLoop .linux input ((splitLines newline input).length + more)).written ++
          ((commandLoop .linux input ((splitLines newline input).length + more)).command ++
            [newline]) := by
  have atEnd := commandLoop_at_end .linux input more
  have sends := CommandLoop.body_at_end .linux atEnd.1
  have commandEq := sends.1
  rw [atEnd.2 found] at commandEq
  rw [← Nat.add_assoc, commandLoop_succ, sends.2.1, commandEq]
  exact ⟨rfl, rfl⟩

/--
So on Linux the pass which finds the end of the input sends some command, and the passes
after it send the same command with one, two, three newlines more, and so on.
-/
theorem linuxMain_repeats (input : List Byte) (more : ℕ) :
    (commandLoop .linux input ((splitLines newline input).length + (more + 1))).command =
        (commandLoop .linux input ((splitLines newline input).length + 1)).command ++
          List.replicate more newline ∧
      (commandLoop .linux input ((splitLines newline input).length + (more + 1))).written =
        (commandLoop .linux input ((splitLines newline input).length + 1)).written ++
          (List.range more).flatMap fun pass =>
            (commandLoop .linux input ((splitLines newline input).length + 1)).command ++
              List.replicate (pass + 1) newline := by
  induction more with
  | zero => simp
  | succ more ih =>
      rcases linuxMain_after_end input (Nat.succ_pos more) with ⟨commandEq, writtenEq⟩
      rcases ih with ⟨commandIh, writtenIh⟩
      constructor
      · rw [commandEq, commandIh, List.append_assoc, ← List.replicate_succ']
      · rw [writtenEq, writtenIh, commandIh, List.range_succ, List.flatMap_append]
        simp [List.replicate_succ']

theorem sentLines_prefix (lines : List (List Byte)) : sentLines lines <+: lines := by
  induction lines with
  | nil => exact List.prefix_rfl
  | cons line lines ih =>
      rw [sentLines]
      split
      · exact ⟨lines, rfl⟩
      · rw [List.prefix_cons_inj]
        exact ih

/-- After as many iterations as there are lines to send, exactly these have been sent. -/
theorem written_eq_expected (platform : Platform) (input : List Byte) :
    (commandLoop platform input (sentLines (splitLines newline input)).length).written =
      expected platform input := by
  have isPrefix := sentLines_prefix (splitLines newline input)
  rw [(commandLoop_through platform input isPrefix.length_le).1,
    ← List.prefix_iff_eq_take.mp isPrefix, expected]

/-- The loop does not stop, and it does not come to rest with the bytes it is meant to send. -/
theorem neither_terminates_nor_sendsExactly (platform : Platform) (input : List Byte) :
    ¬Terminates platform input ∧ ¬SendsExactly platform input (expected platform input) := by
  constructor
  · rintro ⟨iterations, stopped⟩
    rw [commandLoop_quit] at stopped
    simp at stopped
  · rintro ⟨iterations, rests⟩
    -- later than that, more bytes have been written than the expected stream has
    have enough : iterations ≤ iterations + (expected platform input).length + 1 := by omega
    have grown := le_length_written platform input
      (iterations + (expected platform input).length + 1)
    rw [rests _ enough] at grown
    omega

/-- The user types `q`. -/
def quitInput : List Byte :=
  quitCommand ++ [newline]

/-- For the quit line alone, three iterations on Linux send more than that line. -/
theorem sends_after_quit :
    expected .linux quitInput = quitCommand ++ [newline] ∧
      (commandLoop .linux quitInput 3).quit = false ∧
        (commandLoop .linux quitInput 3).written =
          quitCommand ++ [newline, newline, newline, newline] ∧
            ¬(Terminates .linux quitInput ∧
              SendsExactly .linux quitInput (expected .linux quitInput)) := by
  refine ⟨by decide, by decide, by decide, ?_⟩
  rintro ⟨⟨iterations, stopped⟩, _⟩
  rw [commandLoop_quit] at stopped
  simp at stopped

end MiddleMan
