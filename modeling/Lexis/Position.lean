/-
# Lexis.Position -- where a byte stands in a source

A position is a line and a column, both counted from one and in bytes, and the
offset of the byte.  `Position.stepOver` steps over one byte; the position of an
offset is `Position.start` stepped over every byte before it (`stepOverAll`).  A run
of bytes without a line feed moves the column and the offset by its length
(`stepOverAll_of_no_lineFeed`), which is why a scanner may move over such a run in
one step.
-/
import Lexis.Byte

namespace Lexis

set_option autoImplicit false

structure Position where
  line : Nat
  column : Nat
  offset : Nat
deriving DecidableEq

namespace Position

/-- The position of the first byte of every source. -/
def start : Position := ⟨1, 1, 0⟩

/-- A line feed moves to the first column of the next line; every other byte
moves one column to the right, a tab included. -/
def stepOver (p : Position) (b : UInt8) : Position :=
  if b = Byte.lineFeed then ⟨p.line + 1, 1, p.offset + 1⟩
  else ⟨p.line, p.column + 1, p.offset + 1⟩

def stepOverAll (p : Position) (bytes : List UInt8) : Position :=
  bytes.foldl stepOver p

/-- The position at `offset` on the same line. -/
def onLine (p : Position) (offset : Nat) : Position :=
  ⟨p.line, p.column + (offset - p.offset), offset⟩

/-- What a reader of a message sees: the offset is not shown. -/
def text (p : Position) : String :=
  toString p.line ++ ":" ++ toString p.column

/-! ## Laws -/

@[simp] theorem offset_stepOver (p : Position) (b : UInt8) :
    (p.stepOver b).offset = p.offset + 1 := by
  unfold stepOver
  split <;> rfl

@[simp] theorem stepOverAll_nil (p : Position) : p.stepOverAll [] = p := rfl

@[simp] theorem stepOverAll_cons (p : Position) (b : UInt8) (bytes : List UInt8) :
    p.stepOverAll (b :: bytes) = (p.stepOver b).stepOverAll bytes := rfl

theorem stepOverAll_append (p : Position) (front back : List UInt8) :
    p.stepOverAll (front ++ back) = (p.stepOverAll front).stepOverAll back := by
  simp [stepOverAll]

theorem offset_stepOverAll (p : Position) (bytes : List UInt8) :
    (p.stepOverAll bytes).offset = p.offset + bytes.length := by
  induction bytes generalizing p with
  | nil => rfl
  | cons b rest ih =>
      rw [stepOverAll_cons, ih, offset_stepOver, List.length_cons]
      omega

theorem stepOverAll_of_no_lineFeed (p : Position) (bytes : List UInt8)
    (oneLine : Byte.lineFeed ∉ bytes) :
    p.stepOverAll bytes = p.onLine (p.offset + bytes.length) := by
  induction bytes generalizing p with
  | nil => simp [onLine]
  | cons b rest ih =>
      have hb : b ≠ Byte.lineFeed := fun h => oneLine (by simp [h])
      have hrest : Byte.lineFeed ∉ rest := fun h => oneLine (by simp [h])
      rw [stepOverAll_cons, ih _ hrest]
      simp only [stepOver, if_neg hb, onLine, List.length_cons, Position.mk.injEq, true_and]
      exact ⟨by omega, by omega⟩

end Position

end Lexis
