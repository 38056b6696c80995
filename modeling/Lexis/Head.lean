/-
# Lexis.Head -- a place in a source, with its position

A head is a cursor together with the line and the column of its byte.  Positions
are kept up with the bytes and never counted again from the start: a line feed
is stepped over by itself (`feedLine`), and any other run of bytes stays on one
line, so the position follows the cursor in one step (`moveTo`).

`skipTrivia` passes white space and comments.  Each of its steps leaves fewer
bytes ahead, which is why it ends.
-/
import Lexis.Cursor
import Lexis.Position

namespace Lexis

set_option autoImplicit false

/-- A cursor with the position of its byte. -/
structure Head where
  cursor : Cursor
  position : Position

namespace Head

def ofSource (source : Source) : Head := ⟨source.cursor, .start⟩

/-- The cursor has passed bytes of one line; the position follows it. -/
def moveTo (h : Head) (cursor : Cursor) : Head :=
  ⟨cursor, h.position.onLine cursor.index⟩

/-- The cursor passes a line feed. -/
def feedLine (h : Head) : Head :=
  ⟨h.cursor.advance, h.position.stepOver Byte.lineFeed⟩

theorem remaining_feedLine_lt {h : Head} (feed : h.cursor.current = Byte.lineFeed) :
    h.feedLine.cursor.remaining < h.cursor.remaining := by
  have inside : h.cursor.index < h.cursor.source.length :=
    Cursor.not_atEnd_of_current_ne_zero (by rw [feed]; decide)
  refine Cursor.remaining_lt (by simp [feedLine]) ?_
  rw [feedLine, Cursor.index_advance inside]
  exact Nat.lt_succ_self _

theorem remaining_skipBlanks_lt {h : Head} (blank : Byte.isBlank h.cursor.current = true) :
    (h.cursor.skipWhile Byte.isBlank).remaining < h.cursor.remaining := by
  have inside : h.cursor.index < h.cursor.source.length :=
    Cursor.not_atEnd_of_current_ne_zero fun zero => by simp [zero, Byte.isBlank_zero] at blank
  exact Cursor.remaining_lt rfl (Cursor.lt_index_skipWhile blank inside)

theorem remaining_skipLine_lt {h : Head} (sign : h.cursor.current = Byte.hash) :
    h.cursor.skipLine.remaining < h.cursor.remaining := by
  have inside : h.cursor.index < h.cursor.source.length :=
    Cursor.not_atEnd_of_current_ne_zero (by rw [sign]; decide)
  refine Cursor.remaining_lt (by simp [Cursor.skipLine]) ?_
  exact Cursor.lt_index_skipTo (by rw [sign]; decide) inside

/-- Passes white space and comments, in any order.  A comment runs up to the
line feed, which is passed as white space. -/
def skipTrivia (h : Head) : Head :=
  if h.cursor.current = Byte.lineFeed then h.feedLine.skipTrivia
  else if Byte.isBlank h.cursor.current then
    (h.moveTo (h.cursor.skipWhile Byte.isBlank)).skipTrivia
  else if h.cursor.current = Byte.hash then (h.moveTo h.cursor.skipLine).skipTrivia
  else h
termination_by h.cursor.remaining
decreasing_by
  · exact remaining_feedLine_lt ‹_›
  · exact remaining_skipBlanks_lt ‹_›
  · exact remaining_skipLine_lt ‹_›

theorem remaining_skipTrivia_le (h : Head) :
    h.skipTrivia.cursor.remaining ≤ h.cursor.remaining := by
  fun_induction skipTrivia h with
  | case1 h feed ih =>
      have := remaining_feedLine_lt feed
      omega
  | case2 h _ blank ih =>
      have : (h.moveTo (h.cursor.skipWhile Byte.isBlank)).cursor.remaining < _ :=
        remaining_skipBlanks_lt blank
      omega
  | case3 h _ _ sign ih =>
      have : (h.moveTo h.cursor.skipLine).cursor.remaining < _ := remaining_skipLine_lt sign
      omega
  | case4 h => exact Nat.le_refl _

end Head

end Lexis
