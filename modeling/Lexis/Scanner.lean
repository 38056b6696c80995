/-
# Lexis.Scanner -- tokens, one at a time

A scanner stands at a place of a source.  `next` passes over white space and
comments and takes one token; at the end it gives the end token, and goes on
giving it.  Names are looked up in an interner, and errors go to a reporter, at
the position of their token, and never stop the scan.

Every token but the end takes a byte at least (`remaining_next_lt`), so taking
all of them ends (`drain`).
-/
import Lexis.Diagnostic
import Lexis.Head
import Lexis.Interner
import Lexis.Lexeme
import Lexis.Text.Utf8
import Lexis.Token

namespace Lexis

set_option autoImplicit false

/-! ## Names -/

/-- The content of a lexeme: a word is a keyword or else an identifier, and only
identifiers are looked up. -/
def Lexeme.content (names : Interner) : Lexeme → Content × Interner
  | .literal form text => (.literal form ⟨text⟩, names)
  | .punctuation mark => (.punctuation mark, names)
  | .unknown _ => (.unknown, names)
  | .word bytes =>
      let text := Utf8.read bytes
      match Keyword.ofText? text with
      | some keyword => (.keyword keyword, names)
      | none =>
          let (symbol, names) := names.intern text
          (.identifier symbol, names)

theorem Lexeme.content_ne_eof (names : Interner) (l : Lexeme) : (l.content names).1 ≠ .eof := by
  cases l with
  | word bytes =>
      unfold content
      dsimp only
      split <;> simp
  | _ => simp [content]

/-! ## Scanner -/

structure Scanner (σ : Type) where
  head : Head
  reporter : Reporter σ

namespace Scanner

variable {σ : Type}

def ofSource (source : Source) (sink : σ) : Scanner σ :=
  ⟨.ofSource source, .ofSource source sink⟩

/-- How many bytes are ahead. -/
def remaining (s : Scanner σ) : Nat := s.head.cursor.remaining

/-- How many errors were reported. -/
def errors (s : Scanner σ) : Nat := s.reporter.count

variable [Sink σ]

/-- Reports what is wrong with a token, if anything. -/
def note (r : Reporter σ) (position : Position) : Option LexicalError → Reporter σ
  | some error => r.report position error.message
  | none => r

/-- The next token, with the scanner after it and the names known then. -/
def next (s : Scanner σ) (names : Interner) : Token × Scanner σ × Interner :=
  let head := s.head.skipTrivia
  let start := head.position
  if head.cursor.atEnd then (.eof start, { s with head }, names)
  else
    let reading := head.cursor.read
    let stop := head.moveTo reading.stop
    let (content, names) := reading.lexeme.content names
    (⟨content, start, stop.position.offset - start.offset⟩,
      ⟨stop, note s.reporter start reading.error⟩, names)

theorem remaining_next_lt {s : Scanner σ} {names : Interner}
    (more : (s.next names).1.isEof = false) :
    (s.next names).2.1.remaining < s.remaining := by
  have trivia := s.head.remaining_skipTrivia_le
  unfold next at *
  dsimp only at *
  split
  · rename_i ended
    simp [ended, Token.eof, Token.isEof, Token.kind, Content.kind] at more
  · rename_i ahead
    have inside : s.head.skipTrivia.cursor.index < s.head.skipTrivia.cursor.source.length := by
      simpa [Cursor.atEnd] using ahead
    have step := Cursor.remaining_lt s.head.skipTrivia.cursor.source_stop_read
      (Cursor.lt_index_stop_read inside)
    exact Nat.lt_of_lt_of_le step trivia

/-- Adds every token that is left to those already taken, the end last. -/
def drain (s : Scanner σ) (names : Interner) (taken : Array Token) :
    Array Token × Scanner σ × Interner :=
  let step := s.next names
  let taken := taken.push step.1
  if step.1.isEof then (taken, step.2) else step.2.1.drain step.2.2 taken
termination_by s.remaining
decreasing_by exact remaining_next_lt (Bool.eq_false_iff.mpr ‹_›)

/-- Every token that is left, the end last. -/
def all (s : Scanner σ) (names : Interner) : List Token × Scanner σ × Interner :=
  let (taken, s, names) := s.drain names #[]
  (taken.toList, s, names)

/-- The two ways to take tokens. -/
inductive Pull where
  | one
  | rest
deriving DecidableEq

/-- The tokens of one pull. -/
def pull (s : Scanner σ) (names : Interner) : Pull → List Token × Scanner σ × Interner
  | .one =>
      let (token, s, names) := s.next names
      ([token], s, names)
  | .rest => s.all names

end Scanner

/-! ## Whole sources -/

/-- The tokens of a source, and how many errors were reported for it. -/
structure Lexed where
  tokens : List Token
  errors : Nat

def Lexed.hasErrors (l : Lexed) : Bool := 0 < l.errors

/-- Lexes a whole source. -/
def Source.lex {σ : Type} [Sink σ] (source : Source) (sink : σ) (names : Interner) :
    Lexed × σ × Interner :=
  let (tokens, s, names) := (Scanner.ofSource source sink).all names
  (⟨tokens, s.errors⟩, s.reporter.sink, names)

end Lexis
