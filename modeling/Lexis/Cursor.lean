/-
# Lexis.Cursor -- a place in a source that only moves over its bytes

A cursor knows bytes and one index into them; lines and columns are not its
concern.  The index never leaves the text, so a zero byte inside the text is an
ordinary byte and not its end.  `rest` is what lies ahead; each operation has
one law about it:

* `current_eq`, `peek_eq`: the byte so far ahead, or zero when nothing is there;
* `rest_advance`, `rest_advanceBy`: one byte, or so many, are dropped;
* `rest_skipWhile`: the longest run of the class is dropped;
* `rest_skipLine`: everything before the next line feed is dropped;
* `rest_seek`: everything before the next delimiter or line feed is dropped;
* `sliceFrom_eq`: the bytes from an earlier index up to here.
-/
import Lexis.Source

namespace Lexis

set_option autoImplicit false

structure Cursor where
  source : Source
  index : Nat
  index_le : index ≤ source.length

/-- A cursor before the first byte. -/
def Source.cursor (s : Source) : Cursor := ⟨s, 0, Nat.zero_le _⟩

namespace Cursor

/-- The bytes ahead. -/
def rest (c : Cursor) : List UInt8 :=
  c.source.bytes.drop c.index

/-- How many bytes are ahead. -/
def remaining (c : Cursor) : Nat :=
  c.source.length - c.index

def atEnd (c : Cursor) : Bool :=
  c.source.length ≤ c.index

/-- The byte `k` places ahead, zero past the end. -/
def peek (c : Cursor) (k : Nat) : UInt8 :=
  c.source.byte (c.index + k)

def current (c : Cursor) : UInt8 :=
  c.peek 0

/-! ## Moves -/

/-- One byte further; the end stays the end. -/
def advance (c : Cursor) : Cursor :=
  if inside : c.index < c.source.length then { c with index := c.index + 1, index_le := inside }
  else c

/-- So many bytes further, at most to the end. -/
def advanceBy (c : Cursor) (n : Nat) : Cursor :=
  { c with index := min (c.index + n) c.source.length, index_le := Nat.min_le_right _ _ }

/-- Over the run of bytes of the class. -/
def skipWhile (c : Cursor) (inClass : UInt8 → Bool) : Cursor :=
  { c with
    index := c.source.endOfRun inClass c.index c.remaining
    index_le := by
      have := c.source.endOfRun_le inClass c.index c.remaining
      have := c.index_le
      unfold remaining at *
      omega }

/-- To the first byte of the class, or to the end where there is none. -/
def skipTo (c : Cursor) (inClass : UInt8 → Bool) : Cursor :=
  match found : c.source.find? inClass c.index c.remaining with
  | some i =>
      { c with
        index := i
        index_le := by
          have := c.source.le_of_find?_eq_some found
          have := c.index_le
          unfold remaining at *
          omega }
  | none => { c with index := c.source.length, index_le := Nat.le_refl _ }

/-- To the next line feed, which is not passed, or to the end. -/
def skipLine (c : Cursor) : Cursor :=
  c.skipTo (· == Byte.lineFeed)

/-- To the next delimiter or line feed, whichever comes first, and which of them
it is; nothing is found at the end. -/
def seek (c : Cursor) (delimiter : UInt8) : Option UInt8 × Cursor :=
  let stop := c.skipTo fun b => b == delimiter || b == Byte.lineFeed
  (if stop.atEnd then none else some stop.current, stop)

/-! ## Bytes already seen -/

/-- The bytes from `start` up to `stop`, both taken back into the text and
`start` not after `stop`. -/
def slice (c : Cursor) (start stop : Nat) : List UInt8 :=
  let stop := min stop c.source.length
  c.source.slice (min start stop) stop

/-- The bytes from `start` up to here. -/
def sliceFrom (c : Cursor) (start : Nat) : List UInt8 :=
  c.slice start c.index

/-! ## Laws -/

theorem length_rest (c : Cursor) : c.rest.length = c.remaining := by
  simp [rest, remaining]

@[simp] theorem rest_cursor (s : Source) : s.cursor.rest = s.bytes := rfl

theorem atEnd_iff (c : Cursor) : c.atEnd = true ↔ c.rest = [] := by
  simp [atEnd, rest, List.drop_eq_nil_iff]

/-- A byte other than zero is a byte of the text. -/
theorem not_atEnd_of_current_ne_zero {c : Cursor} (some_byte : c.current ≠ 0) :
    c.index < c.source.length := by
  by_cases inside : c.index < c.source.length
  · exact inside
  · exact absurd (c.source.byte_of_length_le (by omega)) some_byte

theorem peek_eq (c : Cursor) (k : Nat) : c.peek k = c.rest.getD k 0 := by
  simp [peek, rest, Source.byte_eq_getD, List.getD_eq_getElem?_getD, List.getElem?_drop]

theorem current_eq (c : Cursor) : c.current = c.rest.headD 0 := by
  rw [current, peek_eq]
  cases c.rest <;> rfl

theorem rest_advance (c : Cursor) : c.advance.rest = c.rest.drop 1 := by
  unfold advance
  split
  · simp [rest]
  · have : c.source.bytes.length ≤ c.index := by
      rw [Source.length_bytes]
      omega
    simp [rest, List.drop_eq_nil_of_le this]

theorem rest_advanceBy (c : Cursor) (n : Nat) : (c.advanceBy n).rest = c.rest.drop n := by
  simp only [advanceBy, rest, List.drop_drop]
  by_cases inside : c.index + n ≤ c.source.length
  · rw [Nat.min_eq_left inside]
  · have far : c.source.bytes.length ≤ c.index + n := by
      rw [Source.length_bytes]
      omega
    rw [Nat.min_eq_right (by omega), List.drop_eq_nil_of_le far,
      List.drop_eq_nil_of_le (Nat.le_of_eq c.source.length_bytes)]

theorem drop_endOfRun (s : Source) (inClass : UInt8 → Bool) (start : Nat) :
    ∀ count, start + count = s.length →
      s.bytes.drop (s.endOfRun inClass start count) = (s.bytes.drop start).dropWhile inClass := by
  intro count
  induction count generalizing start with
  | zero =>
      intro all
      have : s.bytes.length ≤ start := by
        rw [Source.length_bytes]
        omega
      simp [Source.endOfRun, List.drop_eq_nil_of_le this]
  | succ count ih =>
      intro all
      have inside : start < s.bytes.length := by
        rw [Source.length_bytes]
        omega
      have head : s.byte start = s.bytes[start] := by
        rw [Source.byte_eq_getD, List.getD_eq_getElem?_getD, List.getElem?_eq_getElem inside]
        rfl
      rw [List.drop_eq_getElem_cons inside, List.dropWhile_cons, ← head, Source.endOfRun]
      by_cases h : inClass (s.byte start) = true
      · rw [if_pos h, if_pos h]
        exact ih (start + 1) (by omega)
      · rw [if_neg h, if_neg h, List.drop_eq_getElem_cons inside, head]

theorem rest_skipWhile (c : Cursor) (inClass : UInt8 → Bool) :
    (c.skipWhile inClass).rest = c.rest.dropWhile inClass := by
  have := c.index_le
  exact drop_endOfRun c.source inClass c.index c.remaining (by unfold remaining; omega)

/-- Looking for a byte of a class goes as far as the run of the other bytes. -/
theorem find?_eq (s : Source) (inClass : UInt8 → Bool) (start count : Nat) :
    (s.find? inClass start count).getD (start + count) =
      s.endOfRun (fun b => !inClass b) start count := by
  induction count generalizing start with
  | zero => rfl
  | succ count ih =>
      unfold Source.find? Source.endOfRun
      by_cases h : inClass (s.byte start) = true
      · simp [h]
      · have h' : inClass (s.byte start) = false := by simpa using h
        simp only [h', Bool.false_eq_true, if_false, Bool.not_false, if_true]
        rw [← ih (start + 1)]
        congr 1
        omega

theorem index_skipTo (c : Cursor) (inClass : UInt8 → Bool) :
    (c.skipTo inClass).index = (c.skipWhile fun b => !inClass b).index := by
  have := c.index_le
  have whole : c.index + c.remaining = c.source.length := by
    unfold remaining
    omega
  have step := find?_eq c.source inClass c.index c.remaining
  unfold skipTo skipWhile
  split
  · rename_i found
    rw [found] at step
    exact step
  · rename_i found
    rw [found, whole] at step
    exact step

@[simp] theorem source_advance (c : Cursor) : c.advance.source = c.source := by
  unfold advance
  split <;> rfl

@[simp] theorem source_advanceBy (c : Cursor) (n : Nat) : (c.advanceBy n).source = c.source := rfl

@[simp] theorem source_skipWhile (c : Cursor) (inClass : UInt8 → Bool) :
    (c.skipWhile inClass).source = c.source := rfl

@[simp] theorem source_skipTo (c : Cursor) (inClass : UInt8 → Bool) :
    (c.skipTo inClass).source = c.source := by
  unfold skipTo
  split <;> rfl

theorem rest_skipTo (c : Cursor) (inClass : UInt8 → Bool) :
    (c.skipTo inClass).rest = c.rest.dropWhile fun b => !inClass b := by
  rw [← rest_skipWhile]
  simp [rest, index_skipTo]

theorem rest_skipLine (c : Cursor) : c.skipLine.rest = c.rest.dropWhile (· != Byte.lineFeed) :=
  c.rest_skipTo _

theorem rest_seek (c : Cursor) (delimiter : UInt8) :
    (c.seek delimiter).2.rest =
      c.rest.dropWhile fun b => !(b == delimiter || b == Byte.lineFeed) :=
  c.rest_skipTo _

theorem seek_fst (c : Cursor) (delimiter : UInt8) :
    (c.seek delimiter).1 = (c.seek delimiter).2.rest.head? := by
  unfold seek
  simp only
  split
  · rename_i h
    rw [(atEnd_iff _).mp h]
    rfl
  · rename_i h
    rw [current_eq]
    cases ahead : (c.skipTo fun b => b == delimiter || b == Byte.lineFeed).rest with
    | nil => exact absurd ((atEnd_iff _).mpr ahead) h
    | cons b tail => rfl

/-- Between two indexes of the text the slice is plain. -/
theorem slice_eq (c : Cursor) {start stop : Nat} (ordered : start ≤ stop)
    (inside : stop ≤ c.source.length) :
    c.slice start stop = (c.source.bytes.take stop).drop start := by
  simp only [slice, Nat.min_eq_left inside, Nat.min_eq_left ordered]
  exact c.source.slice_eq inside

theorem sliceFrom_eq (c : Cursor) {start : Nat} (ordered : start ≤ c.index) :
    c.sliceFrom start = (c.source.bytes.take c.index).drop start :=
  c.slice_eq ordered c.index_le

/-! ## Progress -/

theorem remaining_lt {c d : Cursor} (same : d.source = c.source) (further : c.index < d.index) :
    d.remaining < c.remaining := by
  have := d.index_le
  unfold remaining
  rw [same] at *
  omega

theorem index_advance {c : Cursor} (inside : c.index < c.source.length) :
    c.advance.index = c.index + 1 := by
  simp [advance, inside]

theorem le_index_advance (c : Cursor) : c.index ≤ c.advance.index := by
  unfold advance
  split
  · exact Nat.le_succ _
  · exact Nat.le_refl _

theorem le_index_skipWhile (c : Cursor) (inClass : UInt8 → Bool) :
    c.index ≤ (c.skipWhile inClass).index :=
  c.source.le_endOfRun inClass c.index c.remaining

theorem lt_index_skipWhile {c : Cursor} {inClass : UInt8 → Bool}
    (first : inClass c.current = true) (inside : c.index < c.source.length) :
    c.index < (c.skipWhile inClass).index :=
  c.source.lt_endOfRun first (by unfold remaining; omega)

theorem le_index_skipTo (c : Cursor) (inClass : UInt8 → Bool) :
    c.index ≤ (c.skipTo inClass).index := by
  rw [index_skipTo]
  exact c.le_index_skipWhile _

theorem lt_index_skipTo {c : Cursor} {inClass : UInt8 → Bool}
    (first : inClass c.current = false) (inside : c.index < c.source.length) :
    c.index < (c.skipTo inClass).index := by
  rw [index_skipTo]
  exact lt_index_skipWhile (by simp [first]) inside

end Cursor

end Lexis
