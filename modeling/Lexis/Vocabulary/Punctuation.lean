/-
# Lexis.Vocabulary.Punctuation -- delimiters and operators, and the longest one ahead

A mark is spelled by one, two or three bytes (`lexeme`).  `rows` is the table by
which marks are found: each row has the bytes that must be ahead, the mark that
they are and how many bytes it takes, and `longest?` takes the first row that
fits.  Rows with more bytes come first, so that is the longest mark.  The number
of bytes stands in the row; it is that of the lexeme (`length_of_longest?`).
-/

namespace Lexis

set_option autoImplicit false

inductive Punctuation where
  | leftParen | rightParen | leftBrace | rightBrace | leftBracket
  | rightBracket | dot | comma | colon | doubleColon
  | semicolon | arrow | fatArrow | plus | plusEqual
  | minus | minusEqual | star | starEqual | slash
  | slashEqual | percent | percentEqual | equal | equalEqual
  | bang | bangEqual | less | lessEqual | greater
  | greaterEqual | andAnd | orOr | amp | ampEqual
  | pipe | pipeEqual | caret | caretEqual | tilde
  | tildeEqual | leftShift | leftShiftEqual | rightShift | rightShiftEqual
  | dollar | atSign
deriving DecidableEq

namespace Punctuation

/-- Every mark. -/
def all : List Punctuation :=
  [.leftParen, .rightParen, .leftBrace, .rightBrace, .leftBracket, .rightBracket,
   .dot, .comma, .colon, .doubleColon, .semicolon, .arrow,
   .fatArrow, .plus, .plusEqual, .minus, .minusEqual, .star,
   .starEqual, .slash, .slashEqual, .percent, .percentEqual, .equal,
   .equalEqual, .bang, .bangEqual, .less, .lessEqual, .greater,
   .greaterEqual, .andAnd, .orOr, .amp, .ampEqual, .pipe,
   .pipeEqual, .caret, .caretEqual, .tilde, .tildeEqual, .leftShift,
   .leftShiftEqual, .rightShift, .rightShiftEqual, .dollar, .atSign]

/-- The spelling in a source. -/
def lexeme : Punctuation → String
  | .leftParen => "("
  | .rightParen => ")"
  | .leftBrace => "\x7b"
  | .rightBrace => "\x7d"
  | .leftBracket => "["
  | .rightBracket => "]"
  | .dot => "."
  | .comma => ","
  | .colon => ":"
  | .doubleColon => "::"
  | .semicolon => ";"
  | .arrow => "->"
  | .fatArrow => "=>"
  | .plus => "+"
  | .plusEqual => "+="
  | .minus => "-"
  | .minusEqual => "-="
  | .star => "*"
  | .starEqual => "*="
  | .slash => "/"
  | .slashEqual => "/="
  | .percent => "%"
  | .percentEqual => "%="
  | .equal => "="
  | .equalEqual => "=="
  | .bang => "!"
  | .bangEqual => "!="
  | .less => "<"
  | .lessEqual => "<="
  | .greater => ">"
  | .greaterEqual => ">="
  | .andAnd => "&&"
  | .orOr => "||"
  | .amp => "&"
  | .ampEqual => "&="
  | .pipe => "|"
  | .pipeEqual => "|="
  | .caret => "^"
  | .caretEqual => "^="
  | .tilde => "~"
  | .tildeEqual => "~="
  | .leftShift => "<<"
  | .leftShiftEqual => "<<="
  | .rightShift => ">>"
  | .rightShiftEqual => ">>="
  | .dollar => "$"
  | .atSign => "@"

/-- The name in a listing of tokens. -/
def label : Punctuation → String
  | .leftParen => "LParen"
  | .rightParen => "RParen"
  | .leftBrace => "LBrace"
  | .rightBrace => "RBrace"
  | .leftBracket => "LBracket"
  | .rightBracket => "RBracket"
  | .dot => "Dot"
  | .comma => "Comma"
  | .colon => "Colon"
  | .doubleColon => "DoubleColon"
  | .semicolon => "Semicolon"
  | .arrow => "Arrow"
  | .fatArrow => "FatArrow"
  | .plus => "Plus"
  | .plusEqual => "PlusEqual"
  | .minus => "Minus"
  | .minusEqual => "MinusEqual"
  | .star => "Star"
  | .starEqual => "StarEqual"
  | .slash => "Slash"
  | .slashEqual => "SlashEqual"
  | .percent => "Percent"
  | .percentEqual => "PercentEqual"
  | .equal => "Equal"
  | .equalEqual => "EqualEqual"
  | .bang => "Bang"
  | .bangEqual => "BangEqual"
  | .less => "Less"
  | .lessEqual => "LessEqual"
  | .greater => "Greater"
  | .greaterEqual => "GreaterEqual"
  | .andAnd => "AndAnd"
  | .orOr => "OrOr"
  | .amp => "Amp"
  | .ampEqual => "AmpEqual"
  | .pipe => "Pipe"
  | .pipeEqual => "PipeEqual"
  | .caret => "Caret"
  | .caretEqual => "CaretEqual"
  | .tilde => "Tilde"
  | .tildeEqual => "TildeEqual"
  | .leftShift => "LShift"
  | .leftShiftEqual => "LShiftEqual"
  | .rightShift => "RShift"
  | .rightShiftEqual => "RShiftEqual"
  | .dollar => "Dollar"
  | .atSign => "At"

/-- What must be ahead for a mark, and how many bytes the mark takes. -/
structure Row where
  ahead : List UInt8
  mark : Punctuation
  length : Nat
deriving DecidableEq

/-- The rows in the order in which they are tried. -/
def rows : List Row :=
  [⟨[0x3C, 0x3C, 0x3D], .leftShiftEqual, 3⟩,
   ⟨[0x3E, 0x3E, 0x3D], .rightShiftEqual, 3⟩,
   ⟨[0x2D, 0x3E], .arrow, 2⟩,
   ⟨[0x3D, 0x3E], .fatArrow, 2⟩,
   ⟨[0x3A, 0x3A], .doubleColon, 2⟩,
   ⟨[0x3D, 0x3D], .equalEqual, 2⟩,
   ⟨[0x21, 0x3D], .bangEqual, 2⟩,
   ⟨[0x3C, 0x3D], .lessEqual, 2⟩,
   ⟨[0x3E, 0x3D], .greaterEqual, 2⟩,
   ⟨[0x3C, 0x3C], .leftShift, 2⟩,
   ⟨[0x3E, 0x3E], .rightShift, 2⟩,
   ⟨[0x26, 0x26], .andAnd, 2⟩,
   ⟨[0x7C, 0x7C], .orOr, 2⟩,
   ⟨[0x2B, 0x3D], .plusEqual, 2⟩,
   ⟨[0x2D, 0x3D], .minusEqual, 2⟩,
   ⟨[0x2A, 0x3D], .starEqual, 2⟩,
   ⟨[0x2F, 0x3D], .slashEqual, 2⟩,
   ⟨[0x25, 0x3D], .percentEqual, 2⟩,
   ⟨[0x26, 0x3D], .ampEqual, 2⟩,
   ⟨[0x7C, 0x3D], .pipeEqual, 2⟩,
   ⟨[0x5E, 0x3D], .caretEqual, 2⟩,
   ⟨[0x7E, 0x3D], .tildeEqual, 2⟩,
   ⟨[0x28], .leftParen, 1⟩,
   ⟨[0x29], .rightParen, 1⟩,
   ⟨[0x7B], .leftBrace, 1⟩,
   ⟨[0x7D], .rightBrace, 1⟩,
   ⟨[0x5B], .leftBracket, 1⟩,
   ⟨[0x5D], .rightBracket, 1⟩,
   ⟨[0x2E], .dot, 1⟩,
   ⟨[0x2C], .comma, 1⟩,
   ⟨[0x3A], .colon, 1⟩,
   ⟨[0x3B], .semicolon, 1⟩,
   ⟨[0x2B], .plus, 1⟩,
   ⟨[0x2D], .minus, 1⟩,
   ⟨[0x2A], .star, 1⟩,
   ⟨[0x2F], .slash, 1⟩,
   ⟨[0x25], .percent, 1⟩,
   ⟨[0x3D], .equal, 1⟩,
   ⟨[0x21], .bang, 1⟩,
   ⟨[0x3C], .less, 1⟩,
   ⟨[0x3E], .greater, 1⟩,
   ⟨[0x26], .amp, 1⟩,
   ⟨[0x7C], .pipe, 1⟩,
   ⟨[0x5E], .caret, 1⟩,
   ⟨[0x7E], .tilde, 1⟩,
   ⟨[0x24], .dollar, 1⟩,
   ⟨[0x40], .atSign, 1⟩]

/-- Whether the next three bytes begin with those of the row. -/
def Row.fits (row : Row) (first second third : UInt8) : Bool :=
  row.ahead.isPrefixOf [first, second, third]

/-- The longest mark that the next three bytes begin with, and how many of them it takes. -/
def longest? (first second third : UInt8) : Option (Punctuation × Nat) :=
  (rows.find? (·.fits first second third)).map fun row => (row.mark, row.length)

theorem mem_all (p : Punctuation) : p ∈ all := by
  cases p <;> decide

/-- Every row takes as many bytes as the lexeme of its mark has. -/
theorem length_of_mem_rows : ∀ row ∈ rows, row.length = row.mark.lexeme.utf8ByteSize := by
  decide +kernel

variable {first second third : UInt8} {mark : Punctuation} {length : Nat}

theorem length_of_longest? (found : longest? first second third = some (mark, length)) :
    length = mark.lexeme.utf8ByteSize := by
  obtain ⟨row, isRow, same⟩ := Option.map_eq_some_iff.mp found
  cases same
  exact length_of_mem_rows row (List.mem_of_find?_eq_some isRow)

theorem utf8ByteSize_lexeme_pos (p : Punctuation) : 0 < p.lexeme.utf8ByteSize := by
  cases p <;> decide

theorem utf8ByteSize_lexeme_le (p : Punctuation) : p.lexeme.utf8ByteSize ≤ 3 := by
  cases p <;> decide

end Punctuation

end Lexis
