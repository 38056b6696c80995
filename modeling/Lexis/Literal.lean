/-
# Lexis.Literal -- the content of a literal, byte for byte

A literal is kept as it stands in the source, between its delimiters and with
nothing decoded.  Sources need not be UTF-8; `text?` is the content as text
where it is, and `shown` always has a text to show.
-/
import Lexis.Text.Quoted
import Lexis.Text.Utf8

namespace Lexis

set_option autoImplicit false

structure Literal where
  bytes : List UInt8
deriving DecidableEq

namespace Literal

def text? (l : Literal) : Option String :=
  Utf8.decode? l.bytes

/-- The text, with U+FFFD for what is not UTF-8. -/
def shown (l : Literal) : String :=
  Utf8.read l.bytes

/-- The text on one line, between quotes. -/
def quoted (l : Literal) : String :=
  Quoted.quoted l.shown

def describe (l : Literal) : String :=
  "Literal(" ++ l.quoted ++ ")"

end Literal

end Lexis
