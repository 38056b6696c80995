/-
# Lexis.Cursor.Call -- cursor operations as data

A call is one operation on a cursor, with its arguments; a script is a list of
calls.  A bookmarked cursor also has a copy of itself to go back to, at first at
the start.  No call leaves the source (`source_perform`), and only going back to
the copy moves a cursor back (`le_index_perform`).
-/
import Lexis.Cursor

namespace Lexis.Cursor

set_option autoImplicit false

inductive Call where
  | current
  | peek (k : Nat)
  | advance
  | advanceBy (n : Nat)
  | slice (start stop : Nat)
  | sliceFrom (start : Nat)
  | skipWhile (inClass : UInt8 → Bool)
  | skipLine
  | seek (delimiter : UInt8)
  | save
  | restore

inductive Answer where
  | nothing
  | byte (b : UInt8)
  | bytes (bs : List UInt8)
  /-- How many bytes were passed. -/
  | count (n : Nat)
  /-- The byte on which the cursor stopped, if it is not at the end. -/
  | found (b : Option UInt8)
deriving DecidableEq

structure Bookmarked where
  cursor : Cursor
  saved : Cursor

def Bookmarked.ofSource (s : Source) : Bookmarked := ⟨s.cursor, s.cursor⟩

/-- How many bytes lie between two places of one source. -/
def distance (c d : Cursor) : Nat := d.index - c.index

def perform (b : Bookmarked) : Call → Answer × Bookmarked
  | .current => (.byte b.cursor.current, b)
  | .peek k => (.byte (b.cursor.peek k), b)
  | .advance => (.nothing, { b with cursor := b.cursor.advance })
  | .advanceBy n => (.nothing, { b with cursor := b.cursor.advanceBy n })
  | .slice start stop => (.bytes (b.cursor.slice start stop), b)
  | .sliceFrom start => (.bytes (b.cursor.sliceFrom start), b)
  | .skipWhile inClass =>
      let cursor := b.cursor.skipWhile inClass
      (.count (b.cursor.distance cursor), { b with cursor })
  | .skipLine =>
      let cursor := b.cursor.skipLine
      (.count (b.cursor.distance cursor), { b with cursor })
  | .seek delimiter =>
      let (found, cursor) := b.cursor.seek delimiter
      (.found found, { b with cursor })
  | .save => (.nothing, { b with saved := b.cursor })
  | .restore => (.nothing, { b with cursor := b.saved })

theorem source_perform (b : Bookmarked) (same : b.saved.source = b.cursor.source) (call : Call) :
    (perform b call).2.cursor.source = b.cursor.source := by
  cases call <;> simp [perform, skipLine, seek, same]

theorem le_index_perform (b : Bookmarked) {call : Call} (forward : call ≠ .restore) :
    b.cursor.index ≤ (perform b call).2.cursor.index := by
  cases call with
  | advance => exact b.cursor.le_index_advance
  | advanceBy n =>
      have := b.cursor.index_le
      simp only [perform, advanceBy]
      omega
  | skipWhile inClass => exact b.cursor.le_index_skipWhile inClass
  | skipLine => exact b.cursor.le_index_skipTo _
  | seek delimiter => exact b.cursor.le_index_skipTo _
  | restore => exact (forward rfl).elim
  | _ => exact Nat.le_refl _

end Lexis.Cursor
