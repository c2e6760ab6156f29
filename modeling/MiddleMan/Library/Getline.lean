import Mathlib.Data.List.TakeWhile

/-!
# Lines of an input stream

`splitLines` cuts a text at a delimiter; the last line may lack it.  `Istream` is an input
stream over a text which is there from the beginning, with the two state bits that
`getline` looks at and sets.

`Remaining` connects the two: a stream hands out the lines of its text one after the
other, and its state bits are clear as long as some text is left.
-/

universe u

variable {α : Type u} [DecidableEq α]

/-- The lines of a text, without the delimiters. -/
def splitLines (delimiter : α) : List α → List (List α)
  | [] => []
  | character :: text =>
      if character = delimiter then [] :: splitLines delimiter text
      else
        match splitLines delimiter text with
        | [] => [[character]]
        | line :: lines => (character :: line) :: lines

/-- An input stream: what has not been extracted yet, and two state bits. -/
structure Istream (α : Type u) where
  rest : List α
  eofbit : Bool
  failbit : Bool
deriving DecidableEq, Repr

namespace Istream

/-- The stream before the first read. -/
def ofText (text : List α) : Istream α :=
  { rest := text
    eofbit := false
    failbit := false }

/-- `good()` -/
def good (stream : Istream α) : Bool :=
  !stream.eofbit && !stream.failbit

/--
`std::getline(stream, str)`, with the stream and the string it leaves.  Only a good stream
lets the call begin; then the string is erased, characters are extracted up to the
delimiter, which is dropped, and the end of the input sets `eofbit`, and `failbit` as
well if nothing was extracted.  Otherwise the string is left as it was.
-/
def getline (delimiter : α) (stream : Istream α) (str : List α) : Istream α × List α :=
  if stream.good then
    let line := stream.rest.takeWhile fun character => character ≠ delimiter
    match stream.rest.dropWhile fun character => character ≠ delimiter with
    | _ :: rest => ({ stream with rest := rest }, line)
    | [] => ({ rest := [], eofbit := true, failbit := line.isEmpty }, line)
  else ({ stream with failbit := true }, str)

/-- The lines the stream has still to hand out. -/
structure Remaining (delimiter : α) (stream : Istream α) (lines : List (List α)) : Prop where
  split : splitLines delimiter stream.rest = lines
  good : stream.rest ≠ [] → stream.good = true

variable {delimiter : α} {stream : Istream α} {lines : List (List α)}

theorem splitLines_eq_nil_iff {text : List α} : splitLines delimiter text = [] ↔ text = [] := by
  cases text with
  | nil => simp [splitLines]
  | cons character text =>
      simp only [splitLines, reduceCtorEq, iff_false]
      split
      · simp
      · split <;> simp

theorem splitLines_of_ne_nil {text : List α} (nonempty : text ≠ []) :
    splitLines delimiter text =
      text.takeWhile (fun character => character ≠ delimiter) ::
        splitLines delimiter (text.dropWhile fun character => character ≠ delimiter).tail := by
  induction text with
  | nil => exact absurd rfl nonempty
  | cons character text ih =>
      by_cases isDelimiter : character = delimiter
      · simp [splitLines, isDelimiter]
      -- the character belongs to the first line of what follows, if anything does
      · rcases text with _ | ⟨second, text⟩
        · simp [splitLines, isDelimiter]
        · rw [splitLines, if_neg isDelimiter, ih (by simp)]
          simp [isDelimiter]

theorem remaining_ofText (text : List α) :
    Remaining delimiter (ofText text) (splitLines delimiter text) :=
  ⟨rfl, fun _ => rfl⟩

/-- `getline` hands out the next line. -/
theorem Remaining.getline_cons {line : List α}
    (remaining : Remaining delimiter stream (line :: lines)) (str : List α) :
    (stream.getline delimiter str).2 = line ∧
      Remaining delimiter (stream.getline delimiter str).1 lines := by
  have nonempty : stream.rest ≠ [] := by
    intro empty
    have split := remaining.split
    simp [empty, splitLines] at split
  have split := remaining.split
  rw [splitLines_of_ne_nil nonempty, List.cons.injEq] at split
  rw [getline, if_pos (remaining.good nonempty)]
  cases behind : stream.rest.dropWhile fun character => character ≠ delimiter with
  | nil =>
      rw [behind, List.tail_nil] at split
      exact ⟨split.1, split.2, by simp⟩
  | cons _ rest =>
      rw [behind, List.tail_cons] at split
      exact ⟨split.1, split.2, fun _ => remaining.good nonempty⟩

/-- At the end of the input a good stream erases the string and is no longer good. -/
theorem Remaining.getline_nil (remaining : Remaining delimiter stream []) (str : List α) :
    (stream.getline delimiter str).2 = (if stream.good then [] else str) ∧
      Remaining delimiter (stream.getline delimiter str).1 [] ∧
        (stream.getline delimiter str).1.good = false := by
  have empty : stream.rest = [] := splitLines_eq_nil_iff.mp remaining.split
  by_cases isGood : stream.good = true
  · simp only [getline, if_pos isGood, empty, List.takeWhile_nil, List.dropWhile_nil]
    exact ⟨trivial, ⟨rfl, by simp⟩, rfl⟩
  · simp only [getline, if_neg isGood]
    exact ⟨trivial, ⟨remaining.split, fun nonempty => absurd empty nonempty⟩,
      by simp [Istream.good]⟩

end Istream
