/-
# Lexis.Line -- the lines of a source

A line is what stands between two line feeds.  `lineBounds` finds the line of an
offset by searching back and forth from it; `lineColumn` counts from the start
of the source instead.  Offsets past the end belong to the last line.

`lineAt` is the line as it is shown: one carriage return at its end is dropped.
`marker` is the line under it, with a caret below a column; what stands before
the caret keeps the tabs of the line, so that the caret stays below its byte
however wide a tab is drawn.
-/
import Lexis.Source

namespace Lexis

set_option autoImplicit false

namespace Source

/-- The first index of the line of an offset: after the line feed before it.  This is
the search `memrchr`, which finds the last place of a byte before an offset. -/
def lineStart (s : Source) : Nat → Nat
  | 0 => 0
  | i + 1 => if s.byte i == Byte.lineFeed then i + 1 else s.lineStart i

/-- The index of the line feed that ends the line of an offset, or the end. -/
def lineEnd (s : Source) (offset : Nat) : Nat :=
  (s.find? (· == Byte.lineFeed) offset (s.length - offset)).getD s.length

/-- The first index of a line, and the index after its last byte. -/
def lineBounds (s : Source) (offset : Nat) : Nat × Nat :=
  let offset := min offset s.length
  (s.lineStart offset, s.lineEnd offset)

/-- The number of the line and of the column, both from one. -/
def lineColumn (s : Source) (offset : Nat) : Nat × Nat :=
  let offset := min offset s.length
  let before := s.slice 0 offset
  (before.count Byte.lineFeed + 1, offset - s.lineStart offset + 1)

end Source

namespace Line

def dropReturn (line : List UInt8) : List UInt8 :=
  if line.getLast? = some Byte.carriageReturn then line.dropLast else line

/-- A tab stays a tab, any other byte makes a space. -/
def blankOf (b : UInt8) : UInt8 :=
  if b == Byte.tab then Byte.tab else Byte.space

/-- The caret below a column, which may lie past the line. -/
def marker (line : List UInt8) (column : Nat) : List UInt8 :=
  let width := column - 1
  (line.take width).map blankOf ++ List.replicate (width - line.length) Byte.space ++
    [Byte.caret]

end Line

/-- The line of an offset as it is shown. -/
def Source.lineAt (s : Source) (offset : Nat) : List UInt8 :=
  let (start, stop) := s.lineBounds offset
  Line.dropReturn (s.slice start stop)

/-! ## Laws -/

theorem Source.lineStart_le (s : Source) (offset : Nat) : s.lineStart offset ≤ offset := by
  induction offset with
  | zero => exact Nat.le_refl _
  | succ i ih =>
      unfold lineStart
      split
      · exact Nat.le_refl _
      · exact Nat.le_succ_of_le ih

theorem Source.le_lineEnd (s : Source) {offset : Nat} (inside : offset ≤ s.length) :
    offset ≤ s.lineEnd offset := by
  unfold lineEnd
  cases found : s.find? (· == Byte.lineFeed) offset (s.length - offset) with
  | none => exact inside
  | some i => exact (s.le_of_find?_eq_some found).1

theorem Source.lineEnd_le (s : Source) {offset : Nat} (inside : offset ≤ s.length) :
    s.lineEnd offset ≤ s.length := by
  unfold lineEnd
  cases found : s.find? (· == Byte.lineFeed) offset (s.length - offset) with
  | none => exact Nat.le_refl _
  | some i =>
      have := (s.le_of_find?_eq_some found).2
      simp only [Option.getD_some]
      omega

theorem Line.length_marker (line : List UInt8) (column : Nat) :
    (Line.marker line column).length = column - 1 + 1 := by
  simp [Line.marker]
  omega

end Lexis
