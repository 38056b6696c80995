/-
# Lexis.Token -- a classified stretch of a source

A token has a content, the position of its first byte and the number of bytes
that it covers.  The content fits its kind by construction: `Content` has one
case for each way a kind can carry something.  Where a kind comes from outside
and may not fit, `Token.bare` and `Token.ofLiteral` check it and say what was
wrong; they accept exactly the kinds that carry nothing (`bare_isOk_iff`) and
the literal kinds (`ofLiteral_isOk_iff`).
-/
import Lexis.Literal
import Lexis.Position
import Lexis.Symbol
import Lexis.Vocabulary.Kind

namespace Lexis

set_option autoImplicit false

inductive Content where
  | eof
  | unknown
  | literal (form : LiteralForm) (text : Literal)
  | identifier (symbol : Symbol)
  | keyword (word : Keyword)
  | punctuation (mark : Punctuation)
deriving DecidableEq

def Content.kind : Content → Kind
  | .eof => .eof
  | .unknown => .unknown
  | .literal form _ => .literal form
  | .identifier _ => .identifier
  | .keyword word => .keyword word
  | .punctuation mark => .punctuation mark

/-- What the content carries. -/
def Content.payload : Content → Payload
  | .literal _ _ => .literal
  | .identifier _ => .symbol
  | _ => .none

structure Token where
  content : Content
  position : Position
  /-- The bytes covered; none at the end of the source. -/
  length : Nat
deriving DecidableEq

/-- Why a kind does not make a token. -/
inductive TokenError where
  | payloadMissing (kind : Kind)
  | notLiteral (kind : Kind)
deriving DecidableEq

def TokenError.message : TokenError → String
  | .payloadMissing kind =>
      "assertion `left == right` failed: " ++ kind.label ++ " requires a payload\n  left: " ++
        kind.payload.label ++ "\n right: " ++ Payload.none.label
  | .notLiteral kind => kind.label ++ " is not a literal kind"

namespace Token

def kind (t : Token) : Kind := t.content.kind

/-- The end of a source. -/
def eof (position : Position) : Token := ⟨.eof, position, 0⟩

def identifier (symbol : Symbol) (position : Position) (length : Nat) : Token :=
  ⟨.identifier symbol, position, length⟩

/-- A token of a kind that carries nothing. -/
def bare (kind : Kind) (position : Position) (length : Nat) : Except TokenError Token :=
  match kind with
  | .eof => .ok ⟨.eof, position, length⟩
  | .unknown => .ok ⟨.unknown, position, length⟩
  | .keyword word => .ok ⟨.keyword word, position, length⟩
  | .punctuation mark => .ok ⟨.punctuation mark, position, length⟩
  | .literal _ | .identifier => .error (.payloadMissing kind)

/-- A token of a literal kind. -/
def ofLiteral (kind : Kind) (text : Literal) (position : Position) (length : Nat) :
    Except TokenError Token :=
  match kind with
  | .literal form => .ok ⟨.literal form text, position, length⟩
  | other => .error (.notLiteral other)

/-- The offset after the last byte. -/
def stop (t : Token) : Nat := t.position.offset + t.length

def isEmpty (t : Token) : Bool := t.length == 0

def isEof (t : Token) : Bool := t.kind = .eof

def literal? (t : Token) : Option Literal :=
  match t.content with
  | .literal _ text => some text
  | _ => none

def symbol? (t : Token) : Option Symbol :=
  match t.content with
  | .identifier symbol => some symbol
  | _ => none

/-! ## Description -/

/-- What a token carries, as it is shown in its description. -/
def describePayload (t : Token) : String :=
  match t.content with
  | .literal _ text => "Literal(" ++ text.describe ++ ")"
  | .identifier symbol => "Symbol(" ++ symbol.describe ++ ")"
  | _ => "None"

/-- Every part of a token, on one line. -/
def describe (t : Token) : String :=
  "Token \x7b kind: " ++ t.kind.label ++ ", payload: " ++ t.describePayload ++
    ", pos: SourcePos \x7b line: " ++ toString t.position.line ++
    ", column: " ++ toString t.position.column ++
    ", offset: " ++ toString t.position.offset ++
    " \x7d, len: " ++ toString t.length ++ " \x7d"

/-! ## Laws -/

theorem payload_content (c : Content) : c.payload = c.kind.payload := by
  cases c <;> rfl

theorem bare_isOk_iff (kind : Kind) (position : Position) (length : Nat) :
    (∃ t, bare kind position length = .ok t) ↔ kind.payload = .none := by
  cases kind <;> simp [bare, Kind.payload]

theorem ofLiteral_isOk_iff (kind : Kind) (text : Literal) (position : Position) (length : Nat) :
    (∃ t, ofLiteral kind text position length = .ok t) ↔ kind.payload = .literal := by
  cases kind <;> simp [ofLiteral, Kind.payload]

theorem isEof_iff (t : Token) : t.isEof = true ↔ t.content = .eof := by
  unfold isEof kind
  cases t.content <;> simp [Content.kind]

end Token

end Lexis
