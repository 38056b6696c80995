/-
# Lexis.LexicalError -- what can be wrong with the bytes of a token

Every lexical error is reported and scanning goes on.  A message is one line,
whatever the byte, since a byte is shown in its escaped form.
-/
import Lexis.Text.Escaped

namespace Lexis

set_option autoImplicit false

inductive LexicalError where
  /-- No closing quote before the end of the line or of the source. -/
  | unterminatedString
  /-- No closing apostrophe after the one byte of a char literal. -/
  | unterminatedChar
  /-- A byte that starts no token. -/
  | unknownByte (byte : UInt8)
deriving DecidableEq

namespace LexicalError

def message : LexicalError → String
  | .unterminatedString => "unterminated string literal"
  | .unterminatedChar => "unterminated char literal"
  | .unknownByte byte => "unknown token '" ++ Escaped.escaped byte ++ "'"

def describe : LexicalError → String
  | .unterminatedString => "UnterminatedString"
  | .unterminatedChar => "UnterminatedChar"
  | .unknownByte byte => "UnknownByte \x7b byte: " ++ toString byte.toNat ++ " \x7d"

end LexicalError

end Lexis
