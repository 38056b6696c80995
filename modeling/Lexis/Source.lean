/-
# Lexis.Source -- a named text, held as bytes before a run of zeros

A source is the text of one file with the name under which messages speak of it.
Its buffer holds the bytes and, after them, zeros up to a whole block, so that
looking a few bytes ahead needs no test for the end: `byte_eq_getD` says that
every index reads the byte of the text or zero.  `Source.ofBytes` refuses a text
whose length needs more than 32 bits; otherwise it keeps the text
(`bytes_padded`).

`endOfRun` and `find?` are the two searches that scanning is made of: the end of
a run of bytes of one class, and the first byte of a class.
-/
import Lexis.Byte

namespace Lexis

set_option autoImplicit false

/-! ## Reading a file -/

/-- Why no text could be had from a file. -/
inductive ReadError where
  | notFound
  | permissionDenied
  | tooLarge (length : Nat)
  | other (reason : String)
deriving DecidableEq

/-- A file that could not be made into a source. -/
structure SourceError where
  name : String
  cause : ReadError
deriving DecidableEq

/-- Lengths and offsets fit in 32 bits.  A column is one more than an offset, so a
source that is a single line of exactly this length has a last column that does not fit;
in every other source that is admitted the columns fit as well. -/
def Source.maxLength : Nat := 4294967295

def SourceError.message (e : SourceError) : String :=
  match e.cause with
  | .notFound => "cannot find file '" ++ e.name ++ "'"
  | .permissionDenied => "permission denied reading '" ++ e.name ++ "'"
  | .tooLarge length =>
      "'" ++ e.name ++ "' is too large: " ++ toString length ++ " bytes, max is " ++
        toString Source.maxLength
  | .other reason => "cannot read '" ++ e.name ++ "': " ++ reason

/-- What each name holds: the bytes of a file, or why they cannot be read. -/
abbrev FileSystem := String → Except ReadError (List UInt8)

/-! ## Sources -/

structure Source where
  name : String
  /-- The bytes of the text, then zeros. -/
  buffer : Array UInt8
  length : Nat
  length_lt_size : length < buffer.size
  length_le_max : length ≤ Source.maxLength
  zero_after : ∀ i, length ≤ i → buffer.getD i 0 = 0

namespace Source

/-- Zeros that always follow the text: one to stop at and room to look ahead. -/
def lookAhead : Nat := 4

def blockSize : Nat := 64

/-- The size of the buffer for a text of `length` bytes, in whole blocks. -/
def paddedSize (length : Nat) : Nat :=
  (length + lookAhead + blockSize - 1) / blockSize * blockSize

theorem lt_paddedSize (length : Nat) : length < paddedSize length := by
  unfold paddedSize lookAhead blockSize
  omega

/-- A text, and zeros after it up to a whole block. -/
def padding (text : List UInt8) : Array UInt8 :=
  (text ++ List.replicate (paddedSize text.length - text.length) 0).toArray

theorem lt_size_padding (text : List UInt8) : text.length < (padding text).size := by
  have := lt_paddedSize text.length
  simp [padding]
  omega

theorem getD_padding (text : List UInt8) (i : Nat) (past : text.length ≤ i) :
    (padding text).getD i 0 = 0 := by
  simp only [padding, Array.getD_eq_getD_getElem?, List.getElem?_toArray,
    List.getElem?_append_right past, List.getElem?_replicate]
  split <;> rfl

/-- The source of a text that is short enough. -/
def padded (name : String) (text : List UInt8) (fits : text.length ≤ maxLength) : Source where
  name := name
  buffer := padding text
  length := text.length
  length_lt_size := lt_size_padding text
  length_le_max := fits
  zero_after := getD_padding text

def ofBytes (name : String) (text : List UInt8) : Except SourceError Source :=
  if fits : text.length ≤ maxLength then .ok (padded name text fits)
  else .error ⟨name, .tooLarge text.length⟩

/-- The source under a name of a file system. -/
def read (files : FileSystem) (name : String) : Except SourceError Source :=
  match files name with
  | .ok text => ofBytes name text
  | .error cause => .error ⟨name, cause⟩

/-- The byte at an index, zero past the end. -/
def byte (s : Source) (i : Nat) : UInt8 :=
  s.buffer.getD i 0

/-- The bytes from `start` up to `stop`. -/
def slice (s : Source) (start stop : Nat) : List UInt8 :=
  (s.buffer.extract start stop).toList

/-- The text, without the zeros after it. -/
def bytes (s : Source) : List UInt8 :=
  s.slice 0 s.length

/-! ## Searches -/

/-- The first index from `start` on, at most `count` further, whose byte is not
of the class. -/
def endOfRun (s : Source) (inClass : UInt8 → Bool) (start : Nat) : Nat → Nat
  | 0 => start
  | count + 1 => if inClass (s.byte start) then s.endOfRun inClass (start + 1) count else start

/-- The first index of the `count` from `start` on whose byte is of the class.  For a
class of one byte this is the search `memchr`, the first place of the byte, and for a
class of two it is `memchr2`, the first place of either. -/
def find? (s : Source) (inClass : UInt8 → Bool) (start : Nat) : Nat → Option Nat
  | 0 => none
  | count + 1 => if inClass (s.byte start) then some start else s.find? inClass (start + 1) count

/-! ## Laws -/

@[simp] theorem bytes_padded (name : String) (text : List UInt8)
    (fits : text.length ≤ maxLength) : (padded name text fits).bytes = text := by
  simp [bytes, slice, padded, padding]

/-- A source goes by the name under which it was read. -/
theorem name_of_read {files : FileSystem} {name : String} {s : Source}
    (reads : read files name = .ok s) : s.name = name := by
  unfold read ofBytes at reads
  split at reads
  · split at reads
    · cases reads
      rfl
    · cases reads
  · cases reads

@[simp] theorem length_bytes (s : Source) : s.bytes.length = s.length := by
  have := s.length_lt_size
  simp [bytes, slice]
  omega

theorem byte_of_length_le (s : Source) {i : Nat} (past : s.length ≤ i) : s.byte i = 0 :=
  s.zero_after i past

theorem slice_eq (s : Source) {start stop : Nat} (inside : stop ≤ s.length) :
    s.slice start stop = (s.bytes.take stop).drop start := by
  simp only [bytes, slice, Array.toList_extract, List.extract_eq_take_drop, Nat.sub_zero,
    List.drop_zero, List.take_take, Nat.min_eq_left inside]
  rw [List.drop_take]

/-- Reading an index is reading the text, with zeros after its end. -/
theorem byte_eq_getD (s : Source) (i : Nat) : s.byte i = s.bytes.getD i 0 := by
  by_cases inside : i < s.length
  · simp [byte, bytes, slice, Array.getD_eq_getD_getElem?, inside]
  · have past : s.length ≤ i := by omega
    rw [byte_of_length_le s past, List.getD_eq_getElem?_getD,
      List.getElem?_eq_none (by rw [length_bytes]; exact past), Option.getD_none]

theorem le_endOfRun (s : Source) (inClass : UInt8 → Bool) (start count : Nat) :
    start ≤ s.endOfRun inClass start count := by
  induction count generalizing start with
  | zero => exact Nat.le_refl _
  | succ count ih =>
      unfold endOfRun
      split
      · exact Nat.le_of_succ_le (ih (start + 1))
      · exact Nat.le_refl _

theorem endOfRun_le (s : Source) (inClass : UInt8 → Bool) (start count : Nat) :
    s.endOfRun inClass start count ≤ start + count := by
  induction count generalizing start with
  | zero => exact Nat.le_refl _
  | succ count ih =>
      unfold endOfRun
      split
      · have := ih (start + 1)
        omega
      · omega

/-- A run goes past a first byte that is of the class. -/
theorem lt_endOfRun (s : Source) {inClass : UInt8 → Bool} {start count : Nat}
    (first : inClass (s.byte start) = true) (some_left : 0 < count) :
    start < s.endOfRun inClass start count := by
  cases count with
  | zero => omega
  | succ count =>
      rw [endOfRun, if_pos first]
      exact s.le_endOfRun inClass (start + 1) count

theorem le_of_find?_eq_some (s : Source) {inClass : UInt8 → Bool} {start count i : Nat}
    (found : s.find? inClass start count = some i) : start ≤ i ∧ i < start + count := by
  induction count generalizing start with
  | zero => simp [find?] at found
  | succ count ih =>
      unfold find? at found
      split at found
      · cases found
        omega
      · have := ih found
        omega

end Source

end Lexis
