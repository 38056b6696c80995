/-
# Lexis.Text.Escaped -- one byte as printable ASCII

A printable ASCII byte is shown as itself, save that the backslash and both
quotes stand behind a backslash; tab, carriage return and line feed are a letter
behind a backslash; every other byte is its two hexadecimal digits behind \x.
-/
import Lexis.Byte

namespace Lexis.Escaped

set_option autoImplicit false

/-- The hexadecimal digits of a byte, always two. -/
def hex (b : UInt8) : List Char :=
  [Nat.digitChar (b.toNat / 16), Nat.digitChar (b.toNat % 16)]

def chars (b : UInt8) : List Char :=
  if b = Byte.tab then ['\\', 't']
  else if b = Byte.carriageReturn then ['\\', 'r']
  else if b = Byte.lineFeed then ['\\', 'n']
  else if b = Byte.apostrophe then ['\\', '\'']
  else if b = Byte.quote then ['\\', '"']
  else if b = 0x5C then ['\\', '\\']
  else if 0x20 ≤ b && b ≤ 0x7E then [Char.ofNat b.toNat]
  else ['\\', 'x'] ++ hex b

def escaped (b : UInt8) : String :=
  String.ofList (chars b)

end Lexis.Escaped
