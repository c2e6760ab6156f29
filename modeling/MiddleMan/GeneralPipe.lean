import MiddleMan.Platform
import Mathlib.Data.List.Basic

/-!
# `GeneralPipe`

The read end of the pipe: opening it in the constructor, `Read`, and the destructor.
The operating system's answer to a call is an argument of the definition that makes
the call; what answers are possible is stated next to it.

`HandleTable` lists what the process has open through the two classes, descriptors on
Linux and handles on Windows.
-/

namespace MiddleMan

/-- What a descriptor or a handle of the process stands for. -/
inductive ResourceKind where
  | pipeReadEnd
  | process
  | thread
deriving DecidableEq, Repr

/-- An open descriptor or handle; `inheritable` says whether a launched program gets it too. -/
structure Resource where
  kind : ResourceKind
  value : ℤ
  inheritable : Bool
deriving DecidableEq, Repr

/-- What a process has open, the latest first. -/
abbrev HandleTable := List Resource

namespace HandleTable

/-- No open descriptor or handle has this value. -/
def Free (table : HandleTable) (value : ℤ) : Prop :=
  ∀ resource ∈ table, resource.value ≠ value

instance (table : HandleTable) (value : ℤ) : Decidable (table.Free value) :=
  inferInstanceAs (Decidable (∀ resource ∈ table, resource.value ≠ value))

/-- `CloseHandle`: a value which is not open, such as `INVALID_HANDLE_VALUE`, closes nothing. -/
def closeHandle (table : HandleTable) (value : ℤ) : HandleTable :=
  table.eraseP fun resource => resource.value == value

/-- What a program gets which the process executes or creates. -/
def inherited (table : HandleTable) : HandleTable :=
  table.filter fun resource => resource.inheritable

end HandleTable

/-- `INVALID_HANDLE_VALUE`, and what `open` returns when it fails. -/
def invalidHandle : ℤ := -1

/-- The answers of `open` and `CreateFileA`: failure, or a value not in use. -/
def OpenAnswer (table : HandleTable) (result : ℤ) : Prop :=
  result = invalidHandle ∨ (0 ≤ result ∧ table.Free result)

instance (table : HandleTable) (result : ℤ) : Decidable (OpenAnswer table result) :=
  inferInstanceAs (Decidable (_ ∨ _))

/-- The class `GeneralPipe`. -/
structure GeneralPipe where
  /-- `FileDescriptor` on Linux, `PipeHandle` on Windows. -/
  descriptor : ℤ
  successfullyConstructed : Bool
deriving DecidableEq, Repr

namespace GeneralPipe

/-- `CreatePipeWindows`, given what `CreateFileA` stored in `PipeHandle`. -/
def createPipeWindows (pipeHandle : ℤ) : Bool :=
  if !(pipeHandle == invalidHandle) then true else false

/-- `CreatePipeLinux`, given what `open` stored in `FileDescriptor`. -/
def createPipeLinux (fileDescriptor : ℤ) : Bool :=
  if fileDescriptor < 0 then false else true

/-- The constructor, with what `open` or `CreateFileA` returned. -/
def construct (platform : Platform) (result : ℤ) : GeneralPipe :=
  { descriptor := result
    successfullyConstructed :=
      match platform with
      | .windows => createPipeWindows result
      | .linux => createPipeLinux result }

/-- `IsSuccessfullyConstructed` -/
def isSuccessfullyConstructed (pipe : GeneralPipe) : Bool :=
  pipe.successfullyConstructed

/--
The resource an opened pipe stands for.  `open` is called without `O_CLOEXEC`, so the
descriptor survives `exec`; `CreateFileA` gets no security attributes, so the handle is
not inherited.
-/
def resource (platform : Platform) (descriptor : ℤ) : Resource :=
  { kind := .pipeReadEnd
    value := descriptor
    inheritable :=
      match platform with
      | .windows => false
      | .linux => true }

/-- The table after that call. -/
def openInto (platform : Platform) (result : ℤ) (table : HandleTable) : HandleTable :=
  if result = invalidHandle then table else resource platform result :: table

/-- The destructor: it closes the handle on Windows and does nothing on Linux. -/
def destruct (platform : Platform) (pipe : GeneralPipe) (table : HandleTable) : HandleTable :=
  match platform with
  | .windows => table.closeHandle pipe.descriptor
  | .linux => table

/-- For every possible answer, construction succeeds exactly when the call opened something. -/
theorem construct_successful_iff (platform : Platform) {table : HandleTable} {result : ℤ}
    (answer : OpenAnswer table result) :
    (construct platform result).successfullyConstructed = true ↔ result ≠ invalidHandle := by
  rcases answer with rfl | ⟨nonneg, _⟩
  · cases platform <;> decide
  · have valid : result ≠ invalidHandle := by
      simp only [invalidHandle]
      omega
    cases platform with
    | windows => simp [construct, createPipeWindows, valid]
    | linux => simp [construct, createPipeLinux, valid, nonneg]

end GeneralPipe

/-! ## The buffer and `Read` -/

/-- `sizeof(Buffer)` in the reader thread. -/
def bufferSize : ℕ := 128

/-- The array `Buffer`. -/
@[ext]
structure Buffer where
  bytes : List Byte
  length_eq : bytes.length = bufferSize
deriving DecidableEq

namespace Buffer

/-- A buffer of zero bytes, used where the initial contents do not matter. -/
def zero : Buffer :=
  ⟨List.replicate bufferSize 0, List.length_replicate⟩

/-- A read call overwrites the front of the buffer; what lies behind stays from earlier reads. -/
def store (buffer : Buffer) (chunk : List Byte) : Buffer :=
  { bytes := (chunk ++ buffer.bytes.drop chunk.length).take bufferSize
    length_eq := by
      simp only [List.length_take, List.length_append, List.length_drop, buffer.length_eq]
      omega }

/-- `std::string str(Buffer, count)` -/
def stdString (buffer : Buffer) (count : ℤ) : List Byte :=
  buffer.bytes.take count.toNat

/-- The string built after a read of `chunk` is `chunk`: no older byte of the buffer gets in. -/
theorem stdString_store (buffer : Buffer) {chunk : List Byte}
    (fits : chunk.length ≤ bufferSize) :
    (buffer.store chunk).stdString chunk.length = chunk := by
  simp only [stdString, store, Int.toNat_natCast, List.take_take, Nat.min_eq_left fits]
  exact List.take_left

end Buffer

/-- What `read` or `ReadFile` did: it put a chunk into the buffer, or it failed. -/
inductive OsRead where
  | data (chunk : List Byte)
  | failed
deriving DecidableEq, Repr

/-- What `Read` returns, leaves behind in its arguments and has printed. -/
structure ReadResult where
  ok : Bool
  buffer : Buffer
  readBytes : ℕ
  errorPrinted : Bool
deriving DecidableEq

namespace OsRead

/-- The result of `read`. -/
def readReturn : OsRead → ℤ
  | .data chunk => chunk.length
  | .failed => -1

/-- `ReadFile`'s return value and the byte count it stores; it stores 0 before it can fail. -/
def readFileReturn : OsRead → Bool × ℕ
  | .data chunk => (true, chunk.length)
  | .failed => (false, 0)

/-- The buffer after the call. -/
def intoBuffer (buffer : Buffer) : OsRead → Buffer
  | .data chunk => buffer.store chunk
  | .failed => buffer

end OsRead

namespace GeneralPipe

/-- `Read`, given what the operating system did. -/
def read (platform : Platform) (buffer : Buffer) (answer : OsRead) : ReadResult :=
  match platform with
  | .windows =>
      let (ok, readBytes) := answer.readFileReturn
      { ok := ok
        buffer := answer.intoBuffer buffer
        readBytes := readBytes
        errorPrinted := false }
  | .linux =>
      let readBytes := toUnsignedLong .linux answer.readReturn
      { ok := decide (0 < castInt readBytes)
        buffer := answer.intoBuffer buffer
        readBytes := readBytes
        -- `ReadBytes == -1` converts the `-1` to `unsigned long` as well
        errorPrinted := readBytes == toUnsignedLong .linux (-1) }

/-- A failed call makes `Read` return false; on Linux the `-1` passes through the unsigned count. -/
@[simp]
theorem read_failed_ok (platform : Platform) (buffer : Buffer) :
    (read platform buffer .failed).ok = false := by
  cases platform with
  | windows => rfl
  | linux => simp [read, OsRead.readReturn, castInt_toUnsignedLong_neg_one]

@[simp]
theorem read_buffer (platform : Platform) (buffer : Buffer) (answer : OsRead) :
    (read platform buffer answer).buffer = answer.intoBuffer buffer := by
  cases platform <;> rfl

theorem read_data_castInt (platform : Platform) (buffer : Buffer) {chunk : List Byte}
    (fits : chunk.length ≤ bufferSize) :
    castInt (read platform buffer (.data chunk)).readBytes = chunk.length := by
  have small : chunk.length < 2 ^ 31 := by
    simp only [bufferSize] at fits
    omega
  cases platform with
  | windows => exact castInt_eq small
  | linux =>
      simp only [read, OsRead.readReturn]
      rw [toUnsignedLong_natCast _ small, castInt_eq small]

/-- A chunk is reported, except that Linux folds a read of zero bytes into the failures. -/
theorem read_data_ok (platform : Platform) (buffer : Buffer) {chunk : List Byte}
    (fits : chunk.length ≤ bufferSize) :
    (read platform buffer (.data chunk)).ok = true ↔ platform = .windows ∨ chunk ≠ [] := by
  cases platform with
  | windows => simp [read, OsRead.readFileReturn]
  | linux =>
      have count := read_data_castInt .linux buffer fits
      simp only [read] at count ⊢
      rw [count]
      simp [List.length_pos_iff]

theorem read_data_stdString (platform : Platform) (buffer : Buffer) {chunk : List Byte}
    (fits : chunk.length ≤ bufferSize) :
    (read platform buffer (.data chunk)).buffer.stdString
      (castInt (read platform buffer (.data chunk)).readBytes) = chunk := by
  rw [read_data_castInt platform buffer fits, read_buffer]
  exact buffer.stdString_store fits

end GeneralPipe

end MiddleMan
