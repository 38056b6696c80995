/-
# Lexis.Lexeme -- reading one lexeme at a cursor

The first byte of a token decides how the rest of it is read: a digit starts a
number, a letter or underscore a word, a quote a string, an apostrophe a char
literal, and any other byte the longest mark it begins, if it begins one.  A
reading tells what was read, what is wrong with it, if anything, and where it
stopped; it stays in the same source (`source_stop_read`) and takes at least one
byte of what is ahead (`lt_index_stop_read`).
-/
import Lexis.Cursor
import Lexis.LexicalError
import Lexis.Vocabulary.Kind

namespace Lexis

set_option autoImplicit false

/-- What the bytes of a token are, before names are looked up. -/
inductive Lexeme where
  | literal (form : LiteralForm) (text : List UInt8)
  | word (text : List UInt8)
  | punctuation (mark : Punctuation)
  | unknown (byte : UInt8)
deriving DecidableEq

structure Reading where
  lexeme : Lexeme
  error : Option LexicalError
  stop : Cursor

namespace Cursor

/-- Digits; a point belongs to the number only between digits. -/
def readNumber (c : Cursor) : Reading :=
  let whole := c.skipWhile Byte.isDigit
  if whole.current == Byte.dot && Byte.isDigit (whole.peek 1) then
    let stop := whole.advance.skipWhile Byte.isDigit
    ⟨.literal .float64 (stop.sliceFrom c.index), none, stop⟩
  else ⟨.literal .int32 (whole.sliceFrom c.index), none, whole⟩

def readWord (c : Cursor) : Reading :=
  let stop := c.skipWhile Byte.isNameByte
  ⟨.word (stop.sliceFrom c.index), none, stop⟩

/-- Everything up to the next quote, on the same line. -/
def readString (c : Cursor) : Reading :=
  let content := c.advance
  let (found, stop) := content.seek Byte.quote
  let lexeme := .literal .string (stop.sliceFrom content.index)
  if found = some Byte.quote then ⟨lexeme, none, stop.advance⟩
  else ⟨lexeme, some .unterminatedString, stop⟩

/-- One byte further, unless the line or the source ends here. -/
def advanceOnLine (c : Cursor) : Cursor :=
  if c.atEnd || c.current == Byte.lineFeed then c else c.advance

/-- One byte, whatever it is unless it ends the line, and an apostrophe. -/
def readChar (c : Cursor) : Reading :=
  let content := c.advance
  let stop := content.advanceOnLine
  let lexeme := .literal .char (stop.sliceFrom content.index)
  if !stop.atEnd && stop.current == Byte.apostrophe then ⟨lexeme, none, stop.advance⟩
  else ⟨lexeme, some .unterminatedChar, stop⟩

def readMark (c : Cursor) : Reading :=
  match Punctuation.longest? c.current (c.peek 1) (c.peek 2) with
  | some (mark, length) => ⟨.punctuation mark, none, c.advanceBy length⟩
  | none => ⟨.unknown c.current, some (.unknownByte c.current), c.advance⟩

/-- The lexeme at a cursor that is not at the end. -/
def read (c : Cursor) : Reading :=
  let first := c.current
  if Byte.isDigit first then c.readNumber
  else if Byte.isNameStart first then c.readWord
  else if first == Byte.quote then c.readString
  else if first == Byte.apostrophe then c.readChar
  else c.readMark

/-! ## Laws -/

theorem le_index_seek (c : Cursor) (delimiter : UInt8) : c.index ≤ (c.seek delimiter).2.index :=
  c.le_index_skipTo _

@[simp] theorem source_seek (c : Cursor) (delimiter : UInt8) :
    (c.seek delimiter).2.source = c.source := by
  simp [seek]

@[simp] theorem source_advanceOnLine (c : Cursor) : c.advanceOnLine.source = c.source := by
  unfold advanceOnLine
  split <;> simp

theorem le_index_advanceOnLine (c : Cursor) : c.index ≤ c.advanceOnLine.index := by
  unfold advanceOnLine
  split
  · exact Nat.le_refl _
  · exact c.le_index_advance

theorem source_stop_read (c : Cursor) : c.read.stop.source = c.source := by
  unfold read readNumber readWord readString readChar readMark
  dsimp only
  repeat' split
  all_goals simp

theorem lt_index_stop_readNumber {c : Cursor} (inside : c.index < c.source.length)
    (digit : Byte.isDigit c.current = true) : c.index < c.readNumber.stop.index := by
  have whole := lt_index_skipWhile digit inside
  unfold readNumber
  dsimp only
  split
  · have point := (c.skipWhile Byte.isDigit).le_index_advance
    have fraction := (c.skipWhile Byte.isDigit).advance.le_index_skipWhile Byte.isDigit
    dsimp only
    omega
  · exact whole

theorem lt_index_stop_readString {c : Cursor} (inside : c.index < c.source.length) :
    c.index < c.readString.stop.index := by
  have opening := index_advance inside
  have content := c.advance.le_index_seek Byte.quote
  have closing := (c.advance.seek Byte.quote).2.le_index_advance
  unfold readString
  dsimp only
  split <;> dsimp only <;> omega

theorem lt_index_stop_readChar {c : Cursor} (inside : c.index < c.source.length) :
    c.index < c.readChar.stop.index := by
  have opening := index_advance inside
  have content := c.advance.le_index_advanceOnLine
  have closing := c.advance.advanceOnLine.le_index_advance
  unfold readChar
  dsimp only
  split <;> dsimp only <;> omega

theorem lt_index_stop_readMark {c : Cursor} (inside : c.index < c.source.length) :
    c.index < c.readMark.stop.index := by
  unfold readMark
  split
  · rename_i mark length found
    have := Punctuation.length_of_longest? found
    have := mark.utf8ByteSize_lexeme_pos
    dsimp only [advanceBy]
    omega
  · dsimp only
    rw [index_advance inside]
    exact Nat.lt_succ_self _

theorem lt_index_stop_read {c : Cursor} (inside : c.index < c.source.length) :
    c.index < c.read.stop.index := by
  unfold read
  dsimp only
  repeat' split
  · exact lt_index_stop_readNumber inside ‹_›
  · exact lt_index_skipWhile (Byte.isNameByte_of_isNameStart ‹_›) inside
  · exact lt_index_stop_readString inside
  · exact lt_index_stop_readChar inside
  · exact lt_index_stop_readMark inside

end Cursor

end Lexis
