/-
# Lexis.Byte -- the bytes that the Lm lexical grammar tells apart

Sources are bytes, not characters: a class is a set of bytes, and every byte
above the ASCII range belongs to none of them.  The classes that may start a
token are disjoint from blanks, from the line feed and from the comment sign,
and no class holds the zero byte (`isBlank_zero`, `isDigit_zero`,
`isNameByte_zero`), so reading a zero past the end never extends a token.
-/

namespace Lexis.Byte

set_option autoImplicit false

/-! ## Bytes with a name -/

abbrev tab : UInt8 := 0x09
abbrev lineFeed : UInt8 := 0x0A
abbrev carriageReturn : UInt8 := 0x0D
abbrev space : UInt8 := 0x20
abbrev quote : UInt8 := 0x22
abbrev hash : UInt8 := 0x23
abbrev apostrophe : UInt8 := 0x27
abbrev dot : UInt8 := 0x2E
abbrev caret : UInt8 := 0x5E
abbrev underscore : UInt8 := 0x5F

/-! ## Classes -/

/-- White space inside a line: space, tab, carriage return, vertical tab and
form feed.  The line feed is apart, since it alone starts a new line. -/
def isBlank (b : UInt8) : Bool :=
  b == space || b == tab || b == carriageReturn || b == 0x0B || b == 0x0C

def isDigit (b : UInt8) : Bool :=
  0x30 ≤ b && b ≤ 0x39

def isLetter (b : UInt8) : Bool :=
  (0x41 ≤ b && b ≤ 0x5A) || (0x61 ≤ b && b ≤ 0x7A)

/-- A name starts with a letter or an underscore. -/
def isNameStart (b : UInt8) : Bool :=
  isLetter b || b == underscore

/-- A name goes on with digits too. -/
def isNameByte (b : UInt8) : Bool :=
  isNameStart b || isDigit b

theorem isBlank_zero : isBlank 0 = false := by decide

theorem isDigit_zero : isDigit 0 = false := by decide

theorem isNameByte_zero : isNameByte 0 = false := by decide

theorem isBlank_lineFeed : isBlank lineFeed = false := by decide

theorem isNameByte_of_isNameStart {b : UInt8} (starts : isNameStart b = true) :
    isNameByte b = true := by
  simp [isNameByte, starts]

end Lexis.Byte
