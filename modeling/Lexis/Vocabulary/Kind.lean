/-
# Lexis.Vocabulary.Kind -- what a token is

Besides the end of the source and a byte that starts no token there are
literals of four forms, identifiers, keywords and punctuation.  Only keywords
and punctuation have one spelling (`lexeme?`).  `payload` says what a token of
the kind carries besides its place: a literal its content, an identifier its
symbol, every other kind nothing.
-/
import Lexis.Vocabulary.Keyword
import Lexis.Vocabulary.Punctuation

namespace Lexis

set_option autoImplicit false

inductive LiteralForm where
  | int32 | float64 | string | char
deriving DecidableEq

/-- What a token carries besides its place. -/
inductive Payload where
  | none | literal | symbol
deriving DecidableEq

def Payload.label : Payload → String
  | .none => "None"
  | .literal => "Literal"
  | .symbol => "Symbol"

inductive Kind where
  | eof
  | unknown
  | literal (form : LiteralForm)
  | identifier
  | keyword (word : Keyword)
  | punctuation (mark : Punctuation)
deriving DecidableEq

namespace LiteralForm

def label : LiteralForm → String
  | .int32 => "Int32Literal"
  | .float64 => "Float64Literal"
  | .string => "StringLiteral"
  | .char => "CharLiteral"

/-- What a message to a reader calls the form. -/
def title : LiteralForm → String
  | .int32 => "integer"
  | .float64 => "float"
  | .string => "string"
  | .char => "char literal"

end LiteralForm

namespace Kind

/-- Every kind. -/
def all : List Kind :=
  [.eof, .unknown, .literal .int32, .literal .float64, .literal .string, .literal .char,
    .identifier] ++ Keyword.all.map .keyword ++ Punctuation.all.map .punctuation

def payload : Kind → Payload
  | .literal _ => .literal
  | .identifier => .symbol
  | _ => .none

def isLiteral (k : Kind) : Bool :=
  k.payload = .literal

def isKeyword : Kind → Bool
  | .keyword _ => true
  | _ => false

def isPunctuation : Kind → Bool
  | .punctuation _ => true
  | _ => false

/-- The one spelling of the kind, if it has one. -/
def lexeme? : Kind → Option String
  | .keyword word => some word.lexeme
  | .punctuation mark => some mark.lexeme
  | _ => none

/-- The name in a listing of tokens. -/
def label : Kind → String
  | .eof => "Eof"
  | .unknown => "Unknown"
  | .literal form => form.label
  | .identifier => "Ident"
  | .keyword word => word.label
  | .punctuation mark => mark.label

/-- The kind with a given name. -/
def ofLabel? (name : String) : Option Kind :=
  all.find? (·.label == name)

/-- What a message to a reader calls the kind: its spelling where it has one. -/
def title : Kind → String
  | .eof => "end of file"
  | .unknown => "unknown"
  | .literal form => form.title
  | .identifier => "identifier"
  | .keyword word => word.lexeme
  | .punctuation mark => mark.lexeme

theorem mem_all (k : Kind) : k ∈ all := by
  cases k with
  | literal form => cases form <;> simp [all]
  | keyword word => simp [all, Keyword.mem_all]
  | punctuation mark => simp [all, Punctuation.mem_all]
  | _ => simp [all]

end Kind

end Lexis
