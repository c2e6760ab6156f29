import MiddleMan.Platform
import MiddleMan.Library.Delivery
import Mathlib.Data.List.Chain

/-!
# `InjectInput`

Characters are injected one at a time: by `ioctl(TIOCSTI)` on Linux, and on Windows by
one `WriteConsoleInputA` of two key records.  Each call can fail, and the Windows call
can write only some of its records.  The two loops go on with the next character
whatever the call returned.
-/

namespace MiddleMan

/-- An `INPUT_RECORD` with `EventType = KEY_EVENT`. -/
structure InputRecord where
  bKeyDown : Bool
  wRepeatCount : BitVec 16
  wVirtualKeyCode : BitVec 16
  asciiChar : Byte
deriving DecidableEq, Repr

/-- `ir[0]`; the assignment to the virtual key code extends the sign of the `char`. -/
def keyDown (character : Byte) : InputRecord :=
  { bKeyDown := true
    wRepeatCount := 1
    wVirtualKeyCode := character.signExtend 16
    asciiChar := character }

/-- The record which releases a key: `ir[1] = ir[0]` with `bKeyDown = FALSE`. -/
def InputRecord.release (record : InputRecord) : InputRecord :=
  { record with bKeyDown := false }

/-- `ir[1]`. -/
def keyUp (character : Byte) : InputRecord :=
  (keyDown character).release

/-- An entry of the input queue: a key pressed by the user, or what was injected. -/
inductive TermInput where
  | typed (key : Byte)
  | pushed (character : Byte)
  | key (record : InputRecord)
deriving DecidableEq, Repr

/-- The character an entry stands for, if it was injected; a key-up repeats no character. -/
def TermInput.injected? : TermInput → Option Byte
  | .typed _ => none
  | .pushed character => some character
  | .key record => if record.bKeyDown then some record.asciiChar else none

/-- The console record an entry is. -/
def TermInput.record? : TermInput → Option InputRecord
  | .typed _ | .pushed _ => none
  | .key record => some record

/-- The injected characters of the queue, in their order. -/
def injectedChars (queue : List TermInput) : List Byte :=
  queue.filterMap TermInput.injected?

/-- The injected console records of the queue, in their order. -/
def injectedRecords (queue : List TermInput) : List InputRecord :=
  queue.filterMap TermInput.record?

/-- What `ioctl` returned, or `WriteConsoleInputA` with the number of records it wrote. -/
inductive InjectReturn where
  | ioctl (result : ℤ)
  | console (ok : Bool) (written : ℕ)
deriving DecidableEq, Repr

namespace InjectReturn

/-- The answers a platform can give.  A console call which fails has written nothing. -/
def Possible : Platform → InjectReturn → Prop
  | .linux, .ioctl _ => True
  | .windows, .console ok written => written ≤ 2 ∧ (ok = false → written = 0)
  | .linux, .console .. | .windows, .ioctl _ => False

instance (platform : Platform) (answer : InjectReturn) : Decidable (Possible platform answer) := by
  cases platform <;> cases answer <;> unfold Possible <;> infer_instance

/-- The character arrives. -/
def delivers : InjectReturn → Bool
  | .ioctl result => decide (0 ≤ result)
  | .console _ written => decide (0 < written)

/-- All of the character arrives: on Windows the record for the release of the key as well. -/
def complete : InjectReturn → Bool
  | .ioctl result => decide (0 ≤ result)
  | .console _ written => decide (written = 2)

/-- What a call returns that does all it is meant to. -/
def success : Platform → InjectReturn
  | .linux => .ioctl 0
  | .windows => .console true 2

theorem delivers_of_complete {answer : InjectReturn} (complete : answer.complete = true) :
    answer.delivers = true := by
  cases answer with
  | ioctl result => exact complete
  | console ok written =>
      simp only [InjectReturn.complete, decide_eq_true_eq] at complete
      simp [delivers, complete]

@[simp]
theorem possible_success (platform : Platform) : Possible platform (success platform) := by
  cases platform <;> simp [Possible, success]

@[simp]
theorem complete_success (platform : Platform) : (success platform).complete = true := by
  cases platform <;> rfl

end InjectReturn

/-- The loop body of `InjectInputLinux`: what enters the queue, and whether an error is printed. -/
def injectInputLinux (character : Byte) (result : ℤ) : List TermInput × Bool :=
  (if 0 ≤ result then [.pushed character] else [], decide (result < 0))

/-- The loop body of `InjectInputWindows`: the records of `ir` which enter the queue. -/
def injectInputWindows (character : Byte) (written : ℕ) : List TermInput :=
  ([keyDown character, keyUp character].take written).map .key

/-- What the call for one character adds to the queue. -/
def injectChar (character : Byte) : InjectReturn → List TermInput
  | .ioctl result => (injectInputLinux character result).1
  | .console _ written => injectInputWindows character written

/-- `InjectInput` of a text, given what the calls for its characters returned. -/
def injectInput (calls : List (Byte × InjectReturn)) : List TermInput :=
  calls.flatMap fun call => injectChar call.1 call.2

@[simp]
theorem injectedChars_append (front back : List TermInput) :
    injectedChars (front ++ back) = injectedChars front ++ injectedChars back :=
  List.filterMap_append

@[simp]
theorem injectedRecords_append (front back : List TermInput) :
    injectedRecords (front ++ back) = injectedRecords front ++ injectedRecords back :=
  List.filterMap_append

/-- A call puts its character into the queue exactly when it delivers, and never twice. -/
theorem injectedChars_injectChar {platform : Platform} {answer : InjectReturn}
    (possible : answer.Possible platform) (character : Byte) :
    injectedChars (injectChar character answer) =
      if answer.delivers then [character] else [] := by
  cases answer with
  | ioctl result =>
      by_cases nonneg : 0 ≤ result
      · simp only [injectChar, injectInputLinux, InjectReturn.delivers, nonneg, decide_true,
          if_true]
        rfl
      · simp only [injectChar, injectInputLinux, InjectReturn.delivers, nonneg, decide_false,
          if_false, Bool.false_eq_true]
        rfl
  | console ok written =>
      cases platform with
      | linux => exact possible.elim
      | windows =>
          obtain rfl | rfl | rfl : written = 0 ∨ written = 1 ∨ written = 2 := by
            have := possible.1
            omega
          all_goals rfl

theorem injectedChars_injectInput {platform : Platform} {calls : List (Byte × InjectReturn)}
    (possible : ∀ call ∈ calls, call.2.Possible platform) :
    injectedChars (injectInput calls) = Delivery.received InjectReturn.delivers calls := by
  induction calls with
  | nil => rfl
  | cons call calls ih =>
      rcases List.forall_mem_cons.mp possible with ⟨callPossible, restPossible⟩
      rw [injectInput, List.flatMap_cons, injectedChars_append,
        injectedChars_injectChar callPossible, Delivery.received_cons, ← injectInput,
        ih restPossible]
      split <;> rfl

/-! ## Key-down and key-up -/

/-- Every key-down record which is followed by a record is followed by its key-up. -/
def KeysReleased (records : List InputRecord) : Prop :=
  records.IsChain fun record next => record.bKeyDown = true → next = record.release

instance (records : List InputRecord) : Decidable (KeysReleased records) :=
  inferInstanceAs (Decidable (records.IsChain _))

/-- No injection call which delivers something comes after one which was not complete. -/
def StopsAtFailure (answers : List InjectReturn) : Prop :=
  answers.Pairwise fun earlier later => later.delivers = true → earlier.complete = true

instance (answers : List InjectReturn) : Decidable (StopsAtFailure answers) :=
  inferInstanceAs (Decidable (answers.Pairwise _))

theorem injectedRecords_injectChar_console (character : Byte) (ok : Bool) (written : ℕ) :
    injectedRecords (injectChar character (.console ok written)) =
      [keyDown character, keyUp character].take written := by
  simp only [injectChar, injectInputWindows, injectedRecords, List.filterMap_map]
  exact List.filterMap_some

@[simp]
theorem injectedRecords_injectChar_ioctl (character : Byte) (result : ℤ) :
    injectedRecords (injectChar character (.ioctl result)) = [] := by
  simp only [injectChar, injectInputLinux]
  split <;> rfl

theorem injectedRecords_injectInput_cons (call : Byte × InjectReturn)
    (calls : List (Byte × InjectReturn)) :
    injectedRecords (injectInput (call :: calls)) =
      injectedRecords (injectChar call.1 call.2) ++ injectedRecords (injectInput calls) := by
  rw [injectInput, List.flatMap_cons, injectedRecords_append, injectInput]

theorem injectedRecords_eq_nil {calls : List (Byte × InjectReturn)}
    (none : ∀ call ∈ calls, ¬call.2.delivers = true) :
    injectedRecords (injectInput calls) = [] := by
  induction calls with
  | nil => rfl
  | cons call calls ih =>
      rcases List.forall_mem_cons.mp none with ⟨callNone, restNone⟩
      rw [injectedRecords_injectInput_cons, ih restNone, List.append_nil]
      rcases call with ⟨character, result | ⟨ok, written⟩⟩
      · exact injectedRecords_injectChar_ioctl character result
      · have nothing : written = 0 := by simpa [InjectReturn.delivers] using callNone
        rw [injectedRecords_injectChar_console, nothing, List.take_zero]

/-- The first record written by Windows calls, if some call delivers, is a key-down. -/
theorem exists_keyDown_first {calls : List (Byte × InjectReturn)}
    (possible : ∀ call ∈ calls, call.2.Possible .windows)
    (some_delivers : ∃ call ∈ calls, call.2.delivers = true) :
    ∃ character records, injectedRecords (injectInput calls) = keyDown character :: records := by
  induction calls with
  | nil => simp at some_delivers
  | cons call calls ih =>
      rcases List.forall_mem_cons.mp possible with ⟨callPossible, restPossible⟩
      rcases call with ⟨character, result | ⟨ok, written⟩⟩
      · exact callPossible.elim
      rw [injectedRecords_injectInput_cons, injectedRecords_injectChar_console]
      rcases written with _ | written
      · have rest_delivers : ∃ call ∈ calls, call.2.delivers = true := by
          simpa [InjectReturn.delivers] using some_delivers
        simpa using ih restPossible rest_delivers
      · exact ⟨character, _, rfl⟩

/-- A complete Windows call, or the last one which delivers, keeps the keys released. -/
theorem keysReleased_of_stopsAtFailure {platform : Platform} {calls : List (Byte × InjectReturn)}
    (possible : ∀ call ∈ calls, call.2.Possible platform)
    (stops : StopsAtFailure (calls.map Prod.snd)) :
    KeysReleased (injectedRecords (injectInput calls)) := by
  induction calls with
  | nil => exact List.isChain_nil
  | cons call calls ih =>
      rcases List.forall_mem_cons.mp possible with ⟨callPossible, restPossible⟩
      rw [StopsAtFailure, List.map_cons, List.pairwise_cons] at stops
      rcases stops with ⟨headStops, tailStops⟩
      have tailReleased := ih restPossible tailStops
      rw [injectedRecords_injectInput_cons]
      rcases call with ⟨character, result | ⟨ok, written⟩⟩
      · simpa using tailReleased
      rw [injectedRecords_injectChar_console]
      cases platform with
      | linux => exact callPossible.elim
      | windows =>
          obtain rfl | rfl | rfl : written = 0 ∨ written = 1 ∨ written = 2 := by
            have := callPossible.1
            omega
          · exact tailReleased
          · -- a lone key-down: no later call may have written anything
            have nothing : injectedRecords (injectInput calls) = [] := by
              apply injectedRecords_eq_nil
              intro later later_mem laterDelivers
              have := headStops later.2 (List.mem_map_of_mem later_mem) laterDelivers
              simp [InjectReturn.complete] at this
            rw [nothing]
            exact List.isChain_singleton _
          · refine List.isChain_cons_cons.mpr ⟨fun _ => rfl, ?_⟩
            refine List.isChain_cons.mpr ⟨?_, tailReleased⟩
            intro next _ impossible
            simp [keyUp, InputRecord.release] at impossible

/--
Characters are neither skipped nor left with their key pressed exactly when no call
delivers anything after one which was not complete.
-/
theorem noneSkipped_and_keysReleased_iff {platform : Platform}
    {calls : List (Byte × InjectReturn)} (possible : ∀ call ∈ calls, call.2.Possible platform) :
    Delivery.NoneSkipped InjectReturn.delivers calls ∧
        KeysReleased (injectedRecords (injectInput calls)) ↔
      StopsAtFailure (calls.map Prod.snd) := by
  constructor
  · rintro ⟨noneSkipped, released⟩
    induction calls with
    | nil => exact List.Pairwise.nil
    | cons call calls ih =>
        rcases List.forall_mem_cons.mp possible with ⟨callPossible, restPossible⟩
        rcases List.pairwise_cons.mp noneSkipped with ⟨headFirst, tailNoneSkipped⟩
        rw [injectedRecords_injectInput_cons, KeysReleased, List.isChain_append] at released
        rw [StopsAtFailure, List.map_cons, List.pairwise_cons]
        refine ⟨?_, ih restPossible tailNoneSkipped released.2.1⟩
        intro answer answer_mem answerDelivers
        rcases List.mem_map.mp answer_mem with ⟨later, later_mem, rfl⟩
        have callDelivers := headFirst later later_mem answerDelivers
        rcases call with ⟨character, result | ⟨ok, written⟩⟩
        · exact callDelivers
        cases platform with
        | linux => exact callPossible.elim
        | windows =>
            obtain rfl | rfl | rfl : written = 0 ∨ written = 1 ∨ written = 2 := by
              have := callPossible.1
              omega
            · simp [InjectReturn.delivers] at callDelivers
            · -- the next record would have to be the missing key-up, but it is a key-down
              exfalso
              rcases exists_keyDown_first restPossible ⟨later, later_mem, answerDelivers⟩ with
                ⟨next, records, recordsEq⟩
              have nextReleases := released.2.2 (keyDown character)
                (by rw [injectedRecords_injectChar_console]; rfl) (keyDown next)
                (by rw [recordsEq]; rfl) rfl
              have := congrArg InputRecord.bKeyDown nextReleases
              simp [keyDown, InputRecord.release] at this
            · rfl
  · intro stops
    refine ⟨?_, keysReleased_of_stopsAtFailure possible stops⟩
    rw [StopsAtFailure, List.pairwise_map] at stops
    exact stops.imp fun complete delivers =>
      InjectReturn.delivers_of_complete (complete delivers)

end MiddleMan
