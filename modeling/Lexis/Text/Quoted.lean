/-
# Lexis.Text.Quoted -- a text between quotes, on one line

A quoted text stands between double quotes.  The quote and the backslash are
written behind a backslash, the zero character, tab, carriage return and line
feed by a letter or digit behind a backslash, and every other character that
does not print as itself by its code point: \u{301}.  The apostrophe stays.
So a quoted text stays on its line.
-/
import Lexis.Text.Printable

namespace Lexis.Quoted

set_option autoImplicit false

def codePoint (c : Char) : List Char :=
  ['\\', 'u', '\x7b'] ++ Nat.toDigits 16 c.toNat ++ ['\x7d']

def escape (c : Char) : List Char :=
  if c = '\x00' then ['\\', '0']
  else if c = '\t' then ['\\', 't']
  else if c = '\r' then ['\\', 'r']
  else if c = '\n' then ['\\', 'n']
  else if c = '"' then ['\\', '"']
  else if c = '\\' then ['\\', '\\']
  else if Printable.isPrintable c then [c]
  else codePoint c

def quoted (text : String) : String :=
  String.ofList ('"' :: text.toList.flatMap escape ++ ['"'])

end Lexis.Quoted
