/-
# Lexis.Listing -- the tokens of a source, one to a line

A listing has a header with the name of the source and the number of tokens, and
then a line for each token: its kind, what it carries in parentheses, and its
position.  A literal is shown quoted, so no line feed of it reaches the listing;
an identifier is shown by its text.
-/
import Lexis.Interner
import Lexis.Source
import Lexis.Token

namespace Lexis.Listing

set_option autoImplicit false

/-- What a token carries, in parentheses. -/
def payload (names : Interner) (t : Token) : String :=
  match t.content with
  | .literal _ text => "(" ++ text.quoted ++ ")"
  | .identifier symbol => "(" ++ names.text symbol ++ ")"
  | _ => ""

def line (names : Interner) (t : Token) : String :=
  "  " ++ t.kind.label ++ payload names t ++ " @ " ++ t.position.text ++ "\n"

def header (source : Source) (tokens : List Token) : String :=
  "Tokens for '" ++ source.name ++ "' (" ++ toString tokens.length ++ " tokens):\n"

def render (names : Interner) (source : Source) (tokens : List Token) : List UInt8 :=
  Utf8.encode (header source tokens) ++ tokens.flatMap fun t => Utf8.encode (line names t)

end Lexis.Listing
