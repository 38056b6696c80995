/-
# Lexis.Proofs.Checking -- reading a source when nothing is guaranteed

A cursor is inside its text by its type, and so every access of it succeeds.  Here the
types promise nothing.  A raw cursor is bytes and two numbers, and each access, each slice,
each step of an index and each round of a loop is checked where it happens, and fails with a
`Fault` if it is not in order.

`Cursor.raw` forgets what the type promises.  What is forgotten is not needed: every checked
operation on a raw cursor succeeds with the raw result of the operation itself.  A loop goes
from byte to byte where the operation searches for the end of a run (`raw_skipWhile`), and a
search is made in a slice of what is ahead (`raw_seek`).  From these the readings are put
together (`raw_read`).
-/
import Lexis.Proofs.Recount

namespace Lexis

set_option autoImplicit false

/-- What must not happen. -/
inductive Fault where
  | index (i size : Nat)
  | range (start stop size : Nat)
  | overflow (value : Nat)
  | underflow (value less : Nat)
  /-- A loop does not come closer to its end. -/
  | stuck
  | token (e : TokenError)
  | names (e : InternerError)
deriving DecidableEq

/-! ## Checks -/

namespace Checked

@[simp] theorem ok_bind {α β : Type} (a : α) (f : α → Except Fault β) :
    (Except.ok a >>= f) = f a := rfl

@[simp] theorem pure_eq_ok {α : Type} (a : α) : (pure a : Except Fault α) = .ok a := rfl

/-- A sum in 32 bits. -/
def add (a b : Nat) : Except Fault Nat :=
  if a + b ≤ Source.maxLength then .ok (a + b) else .error (.overflow (a + b))

def sub (a b : Nat) : Except Fault Nat :=
  if b ≤ a then .ok (a - b) else .error (.underflow a b)

def get (bytes : Array UInt8) (i : Nat) : Except Fault UInt8 :=
  if inside : i < bytes.size then .ok bytes[i] else .error (.index i bytes.size)

def slice (bytes : Array UInt8) (start stop : Nat) : Except Fault (List UInt8) :=
  if start ≤ stop ∧ stop ≤ bytes.size then .ok (bytes.extract start stop).toList
  else .error (.range start stop bytes.size)

/-- Runs a body, which goes on with another state or is done; every round must leave less
to do. -/
def loop {α β : Type} (left : α → Nat) (body : α → Except Fault (α ⊕ β)) (a : α) :
    Except Fault β :=
  match body a with
  | .error fault => .error fault
  | .ok (.inr result) => .ok result
  | .ok (.inl next) => if left next < left a then loop left body next else .error .stuck
termination_by left a

theorem add_eq {a b : Nat} (fits : a + b ≤ Source.maxLength) : add a b = .ok (a + b) :=
  if_pos fits

theorem sub_eq {a b : Nat} (ordered : b ≤ a) : sub a b = .ok (a - b) :=
  if_pos ordered

theorem slice_eq {bytes : Array UInt8} {start stop : Nat} (ordered : start ≤ stop)
    (inside : stop ≤ bytes.size) : slice bytes start stop = .ok (bytes.extract start stop).toList :=
  if_pos ⟨ordered, inside⟩

section Loop

variable {α β : Type} {left : α → Nat} {body : α → Except Fault (α ⊕ β)} {a next : α} {result : β}

theorem loop_of_done (done : body a = .ok (.inr result)) : loop left body a = .ok result := by
  rw [loop, done]

theorem loop_of_next (goesOn : body a = .ok (.inl next)) (closer : left next < left a) :
    loop left body a = loop left body next := by
  rw [loop, goesOn]
  exact if_pos closer

end Loop

end Checked

/-! ## Raw cursors -/

structure RawCursor where
  buffer : Array UInt8
  index : Nat
  length : Nat
deriving DecidableEq

namespace RawCursor

/-- A cursor before the first byte; zeros must follow the text. -/
def ofBuffer (buffer : Array UInt8) (length : Nat) : Except Fault RawCursor :=
  if length < buffer.size then .ok ⟨buffer, 0, length⟩ else .error (.index length buffer.size)

def ahead (c : RawCursor) : Nat := c.length - c.index

def atEnd (c : RawCursor) : Bool := c.length ≤ c.index

def peek (c : RawCursor) (k : Nat) : UInt8 := c.buffer.getD (c.index + k) 0

def current (c : RawCursor) : UInt8 := c.peek 0

/-- So many bytes further. -/
def forward (c : RawCursor) (n : Nat) : Except Fault RawCursor := do
  let index ← Checked.add c.index n
  return { c with index }

def advance (c : RawCursor) : Except Fault RawCursor :=
  if c.index < c.length then c.forward 1 else .ok c

def advanceBy (c : RawCursor) (n : Nat) : RawCursor :=
  { c with index := min (c.index + n) c.length }

def slice (c : RawCursor) (start stop : Nat) : Except Fault (List UInt8) :=
  let stop := min stop c.length
  Checked.slice c.buffer (min start stop) stop

def sliceFrom (c : RawCursor) (start : Nat) : Except Fault (List UInt8) :=
  c.slice start c.index

/-- One byte of the class, or nothing more. -/
def skipOne (inClass : UInt8 → Bool) (c : RawCursor) : Except Fault (RawCursor ⊕ RawCursor) :=
  if c.atEnd then .ok (.inr c)
  else do
    let b ← Checked.get c.buffer c.index
    if inClass b then return .inl (← c.forward 1) else return .inr c

def skipWhile (c : RawCursor) (inClass : UInt8 → Bool) : Except Fault RawCursor :=
  Checked.loop ahead (skipOne inClass) c

/-- How far ahead the first byte of the class is. -/
def find? (c : RawCursor) (inClass : UInt8 → Bool) : Except Fault (Option Nat) := do
  let rest ← Checked.slice c.buffer c.index c.length
  return rest.findIdx? inClass

def toEnd (c : RawCursor) : RawCursor := { c with index := c.length }

def skipLine (c : RawCursor) : Except Fault RawCursor := do
  match ← c.find? (· == Byte.lineFeed) with
  | some k => c.forward k
  | none => return c.toEnd

def seek (c : RawCursor) (delimiter : UInt8) : Except Fault (Option UInt8 × RawCursor) := do
  match ← c.find? fun b => b == delimiter || b == Byte.lineFeed with
  | some k =>
      let stop ← c.forward k
      let found ← Checked.get stop.buffer stop.index
      return (some found, stop)
  | none => return (none, c.toEnd)

end RawCursor

/-! ### What is not needed -/

namespace Cursor

def raw (c : Cursor) : RawCursor := ⟨c.source.buffer, c.index, c.source.length⟩

variable (c : Cursor)

theorem index_lt_size : c.index < c.source.buffer.size :=
  Nat.lt_of_le_of_lt c.index_le c.source.length_lt_size

theorem raw_cursor (source : Source) :
    RawCursor.ofBuffer source.buffer source.length = .ok source.cursor.raw :=
  if_pos source.length_lt_size

@[simp] theorem buffer_raw : c.raw.buffer = c.source.buffer := rfl

@[simp] theorem index_raw : c.raw.index = c.index := rfl

@[simp] theorem length_raw : c.raw.length = c.source.length := rfl

@[simp] theorem raw_atEnd : c.raw.atEnd = c.atEnd := rfl

@[simp] theorem raw_peek (k : Nat) : c.raw.peek k = c.peek k := rfl

@[simp] theorem raw_current : c.raw.current = c.current := rfl

theorem raw_forward {n : Nat} {d : Cursor} (same : d.source = c.source)
    (index : d.index = c.index + n) : c.raw.forward n = .ok d.raw := by
  have fits : c.index + n ≤ Source.maxLength := by
    rw [← index]
    exact Nat.le_trans d.index_le d.source.length_le_max
  rw [RawCursor.forward]
  simp only [raw, Checked.add_eq fits, Checked.ok_bind, Checked.pure_eq_ok, same, index]

theorem raw_toEnd {d : Cursor} (same : d.source = c.source) (ended : d.index = c.source.length) :
    c.raw.toEnd = d.raw := by
  simp only [RawCursor.toEnd, raw, same, ended]

@[simp] theorem raw_advance : c.raw.advance = .ok c.advance.raw := by
  by_cases inside : c.index < c.source.length
  · rw [← c.raw_forward c.source_advance (index_advance inside)]
    exact if_pos inside
  · rw [advance, dif_neg inside]
    exact if_neg inside

@[simp] theorem raw_get : Checked.get c.source.buffer c.index = .ok c.current := by
  have inside := c.index_lt_size
  simp [Checked.get, inside, current, peek, Source.byte, Array.getD]

@[simp] theorem raw_slice (start stop : Nat) :
    c.raw.slice start stop = .ok (c.slice start stop) := by
  have inside : min stop c.source.length ≤ c.source.buffer.size := by
    have := c.source.length_lt_size
    omega
  exact Checked.slice_eq (Nat.min_le_right _ _) inside

@[simp] theorem raw_sliceFrom (start : Nat) : c.raw.sliceFrom start = .ok (c.sliceFrom start) :=
  c.raw_slice start c.index

theorem raw_find? (inClass : UInt8 → Bool) :
    c.raw.find? inClass = .ok (c.rest.findIdx? inClass) := by
  have inside : c.source.length ≤ c.source.buffer.size := Nat.le_of_lt c.source.length_lt_size
  have whole : c.source.slice c.index c.source.length = c.rest := by
    rw [c.source.slice_eq (Nat.le_refl _), ← Source.length_bytes, List.take_length, rest]
  rw [RawCursor.find?, buffer_raw, index_raw, length_raw, Checked.slice_eq c.index_le inside,
    ← whole]
  rfl

-- Beyond its text a raw cursor does fail.
example : (RawCursor.mk #[0x61, 0x00] 3 1).find? (· == Byte.lineFeed) =
    .error (.range 3 1 2) := rfl

/-! ### Searches -/

variable {c}

theorem advance_skipWhile {inClass : UInt8 → Bool} (belongs : inClass c.current = true)
    (inside : c.index < c.source.length) : c.advance.skipWhile inClass = c.skipWhile inClass := by
  have step : c.remaining = c.advance.remaining + 1 := by
    simp only [remaining, source_advance, index_advance inside]
    omega
  refine eq_of_index (d := c.skipWhile inClass) c.source_advance ?_
  rw [skipWhile, skipWhile]
  dsimp only
  rw [step, Source.endOfRun, source_advance, index_advance inside]
  exact (if_pos belongs).symm

/-- A run is empty at the end, and before a byte that does not belong to it. -/
theorem skipWhile_eq_self {inClass : UInt8 → Bool}
    (stops : c.atEnd = true ∨ inClass c.current = false) : c.skipWhile inClass = c := by
  refine eq_of_index (c := c.skipWhile inClass) rfl ?_
  show c.source.endOfRun inClass c.index c.remaining = c.index
  cases left : c.remaining with
  | zero => rfl
  | succ n =>
      have inside : c.index < c.source.length := by
        unfold remaining at left
        omega
      have more : c.atEnd = false := by simpa [atEnd] using inside
      have notIn : inClass c.current = false := by simpa [more] using stops
      rw [Source.endOfRun]
      exact if_neg (Bool.eq_false_iff.mp notIn)

/-- Going from byte to byte comes as far as the search for the end of the run. -/
@[simp] theorem raw_skipWhile (c : Cursor) (inClass : UInt8 → Bool) :
    c.raw.skipWhile inClass = .ok (c.skipWhile inClass).raw := by
  -- By induction on what is left: each round takes one byte, and the run of the rest is the
  -- rest of the run.
  induction left : c.remaining generalizing c with
  | zero =>
      have ended : c.atEnd = true := by
        simpa [atEnd, remaining, Nat.sub_eq_zero_iff_le] using left
      rw [skipWhile_eq_self (.inl ended)]
      apply Checked.loop_of_done
      simp [RawCursor.skipOne, ended]
  | succ n ih =>
      have inside : c.index < c.source.length := by
        unfold remaining at left
        omega
      have more : c.atEnd = false := by simpa [atEnd] using inside
      have forward := c.raw_forward c.source_advance (index_advance inside)
      have further : c.advance.remaining < c.remaining :=
        remaining_lt c.source_advance (by rw [index_advance inside]; omega)
      by_cases belongs : inClass c.current = true
      · have goesOn : RawCursor.skipOne inClass c.raw = .ok (.inl c.advance.raw) := by
          simp [RawCursor.skipOne, more, belongs, forward]
        rw [RawCursor.skipWhile, Checked.loop_of_next goesOn further,
          ← advance_skipWhile belongs inside]
        apply ih
        simp only [remaining, source_advance, index_advance inside] at left ⊢
        omega
      · rw [Bool.not_eq_true] at belongs
        rw [skipWhile_eq_self (.inr belongs)]
        apply Checked.loop_of_done
        simp [RawCursor.skipOne, more, belongs]

/-- What is looked for stands where the search stops, or nowhere before the end. -/
theorem skipTo_cases (c : Cursor) (inClass : UInt8 → Bool) :
    (c.rest.findIdx? inClass = none ∧ (c.skipTo inClass).index = c.source.length) ∨
      ∃ k, c.rest.findIdx? inClass = some k ∧ (c.skipTo inClass).index = c.index + k ∧
        (c.skipTo inClass).atEnd = false := by
  have stop := (c.passes_skipTo inClass).index_eq
  have whole : c.index + c.rest.length = c.source.length := by
    have := c.index_le
    rw [length_rest, remaining]
    omega
  rw [List.takeWhile_eq_take_findIdx_not] at stop
  simp only [Bool.not_not, List.length_take, Nat.min_eq_left List.findIdx_le_length] at stop
  cases found : c.rest.findIdx? inClass with
  | none =>
      left
      rw [List.findIdx?_eq_none_iff_findIdx_eq] at found
      rw [found, whole] at stop
      exact ⟨rfl, stop⟩
  | some k =>
      right
      obtain ⟨inside, here⟩ := List.findIdx?_eq_some_iff_findIdx_eq.mp found
      rw [here] at stop
      refine ⟨k, rfl, stop, ?_⟩
      simp [atEnd, stop]
      omega

@[simp] theorem raw_skipLine (c : Cursor) : c.raw.skipLine = .ok c.skipLine.raw := by
  have same : c.skipLine.source = c.source := c.source_skipTo _
  unfold RawCursor.skipLine
  rw [raw_find?, Checked.ok_bind]
  rcases c.skipTo_cases (· == Byte.lineFeed) with ⟨nowhere, stop⟩ | ⟨k, found, stop, _⟩
  · rw [nowhere]
    exact congrArg Except.ok (c.raw_toEnd same stop)
  · rw [found]
    exact c.raw_forward same stop

/-- A search stops at the first byte it looks for, or at the end and finds nothing. -/
theorem seek_cases (c : Cursor) (delimiter : UInt8) :
    ((c.rest.findIdx? fun b => b == delimiter || b == Byte.lineFeed) = none ∧
        (c.seek delimiter).1 = none ∧ (c.seek delimiter).2.index = c.source.length) ∨
      ∃ k, (c.rest.findIdx? fun b => b == delimiter || b == Byte.lineFeed) = some k ∧
        (c.seek delimiter).1 = some (c.seek delimiter).2.current ∧
        (c.seek delimiter).2.index = c.index + k := by
  have same := c.source_seek delimiter
  rcases c.skipTo_cases fun b => b == delimiter || b == Byte.lineFeed with
    ⟨nowhere, ended⟩ | ⟨k, found, here, more⟩
  · left
    have atEnd : (c.seek delimiter).2.atEnd = true := by
      rw [atEnd, same]
      exact decide_eq_true (Nat.le_of_eq ended.symm)
    exact ⟨nowhere, if_pos atEnd, ended⟩
  · right
    have inside : ¬ (c.seek delimiter).2.atEnd = true := Bool.eq_false_iff.mp more
    exact ⟨k, found, if_neg inside, here⟩

/-- What a search found, and where a raw cursor stops. -/
def rawFound (found : Option UInt8 × Cursor) : Option UInt8 × RawCursor :=
  (found.1, found.2.raw)

@[simp] theorem raw_seek (c : Cursor) (delimiter : UInt8) :
    c.raw.seek delimiter = .ok (rawFound (c.seek delimiter)) := by
  have same := c.source_seek delimiter
  unfold RawCursor.seek rawFound
  rw [raw_find?, Checked.ok_bind]
  rcases c.seek_cases delimiter with ⟨nowhere, nothing, ended⟩ | ⟨k, here, found, stop⟩
  · rw [nowhere, nothing, ← c.raw_toEnd same ended]
    rfl
  · have reached := c.raw_forward same stop
    have read : Checked.get (c.seek delimiter).2.raw.buffer (c.seek delimiter).2.raw.index =
        .ok (c.seek delimiter).2.current := (c.seek delimiter).2.raw_get
    rw [here, found]
    dsimp only
    rw [reached, Checked.ok_bind, read]
    rfl

end Cursor

/-! ## Readings -/

structure RawReading where
  lexeme : Lexeme
  error : Option LexicalError
  stop : RawCursor

namespace RawCursor

/-! A token is sliced from the offset of its position, which is not known here to be that of
the cursor. -/

def readNumber (c : RawCursor) (start : Nat) : Except Fault RawReading := do
  let whole ← c.skipWhile Byte.isDigit
  if whole.current == Byte.dot && Byte.isDigit (whole.peek 1) then
    let point ← whole.advance
    let stop ← point.skipWhile Byte.isDigit
    return ⟨.literal .float64 (← stop.sliceFrom start), none, stop⟩
  else return ⟨.literal .int32 (← whole.sliceFrom start), none, whole⟩

def readWord (c : RawCursor) (start : Nat) : Except Fault RawReading := do
  let stop ← c.skipWhile Byte.isNameByte
  return ⟨.word (← stop.sliceFrom start), none, stop⟩

def readString (c : RawCursor) : Except Fault RawReading := do
  let content ← c.advance
  let (found, stop) ← content.seek Byte.quote
  let lexeme := .literal .string (← stop.sliceFrom content.index)
  if found = some Byte.quote then return ⟨lexeme, none, ← stop.advance⟩
  else return ⟨lexeme, some .unterminatedString, stop⟩

def advanceOnLine (c : RawCursor) : Except Fault RawCursor :=
  if c.atEnd || c.current == Byte.lineFeed then .ok c else c.advance

def readChar (c : RawCursor) : Except Fault RawReading := do
  let content ← c.advance
  let stop ← content.advanceOnLine
  let lexeme := .literal .char (← stop.sliceFrom content.index)
  if !stop.atEnd && stop.current == Byte.apostrophe then return ⟨lexeme, none, ← stop.advance⟩
  else return ⟨lexeme, some .unterminatedChar, stop⟩

def readMark (c : RawCursor) : Except Fault RawReading :=
  match Punctuation.longest? c.current (c.peek 1) (c.peek 2) with
  | some (mark, length) => .ok ⟨.punctuation mark, none, c.advanceBy length⟩
  | none => return ⟨.unknown c.current, some (.unknownByte c.current), ← c.advance⟩

def read (c : RawCursor) (start : Nat) : Except Fault RawReading :=
  let first := c.current
  if Byte.isDigit first then c.readNumber start
  else if Byte.isNameStart first then c.readWord start
  else if first == Byte.quote then c.readString
  else if first == Byte.apostrophe then c.readChar
  else c.readMark

end RawCursor

def Reading.raw (r : Reading) : RawReading := ⟨r.lexeme, r.error, r.stop.raw⟩

namespace Cursor

variable (c : Cursor)

theorem raw_readNumber : c.raw.readNumber c.index = .ok c.readNumber.raw := by
  let whole := c.skipWhile Byte.isDigit
  have skipped : c.raw.skipWhile Byte.isDigit = .ok whole.raw := c.raw_skipWhile _
  unfold RawCursor.readNumber readNumber
  rw [skipped, Checked.ok_bind]
  by_cases point : (whole.current == Byte.dot && Byte.isDigit (whole.peek 1)) = true
  · have rawPoint : (whole.raw.current == Byte.dot && Byte.isDigit (whole.raw.peek 1)) = true :=
      point
    rw [if_pos rawPoint, if_pos point]
    simp [Reading.raw, whole]
  · have noPoint : ¬ (whole.raw.current == Byte.dot && Byte.isDigit (whole.raw.peek 1)) = true :=
      point
    rw [if_neg noPoint, if_neg point]
    simp [Reading.raw, whole]

theorem raw_readWord : c.raw.readWord c.index = .ok c.readWord.raw := by
  simp [RawCursor.readWord, readWord, Reading.raw]

theorem raw_readString : c.raw.readString = .ok c.readString.raw := by
  unfold RawCursor.readString readString
  simp only [raw_advance, raw_seek, rawFound, Checked.ok_bind, index_raw, raw_sliceFrom]
  split
  · simp [Reading.raw]
  · simp [Reading.raw]

theorem raw_advanceOnLine : c.raw.advanceOnLine = .ok c.advanceOnLine.raw := by
  unfold RawCursor.advanceOnLine advanceOnLine
  simp only [raw_atEnd, raw_current, raw_advance]
  split <;> rfl

theorem raw_readChar : c.raw.readChar = .ok c.readChar.raw := by
  unfold RawCursor.readChar readChar
  simp only [raw_advance, Checked.ok_bind, raw_advanceOnLine, index_raw, raw_sliceFrom, raw_atEnd,
    raw_current]
  split
  · simp [Reading.raw]
  · simp [Reading.raw]

theorem raw_readMark : c.raw.readMark = .ok c.readMark.raw := by
  unfold RawCursor.readMark readMark
  simp only [raw_current, raw_peek]
  cases Punctuation.longest? c.current (c.peek 1) (c.peek 2) with
  | some found => rfl
  | none => simp [Reading.raw]

theorem raw_read : c.raw.read c.index = .ok c.read.raw := by
  unfold RawCursor.read read
  simp only [raw_current, raw_readNumber, raw_readWord, raw_readString, raw_readChar, raw_readMark]
  split
  · rfl
  split
  · rfl
  split
  · rfl
  split <;> rfl

end Cursor

end Lexis
