/-
# Lexis.Proofs.Unambiguous -- a text has one cut

The grammars of trivia, of lexemes and of cuts say what may be read; here they
are shown to leave no choice.  A run of bytes of a class that stops at what
follows is determined by the whole text (`append_inj_of_stops`).  So is the gap
before a token (`Trivia.unique`), so is the lexeme with its spelling and its
error (`Spelled.unique`), and so is the whole cut (`Cut.unique`).

Therefore any cut of a source, however it was found, tells what a run over the
source gives (`lex_eq_of_cut`): two runs are compared by comparing cuts.
-/
import Lexis.Proofs.LongestMatch

namespace Lexis

set_option autoImplicit false

/-! ## Runs of bytes -/

theorem bne_lineFeed {line : List UInt8} (oneLine : Byte.lineFeed ∉ line) :
    ∀ b ∈ line, (b != Byte.lineFeed) = true := by
  intro b member
  simp only [bne_iff_ne]
  rintro rfl
  exact oneLine member

/-- The bytes of a line up to its end. -/
theorem line_inj {line rest other rest' : List UInt8} (oneLine : Byte.lineFeed ∉ line)
    (stops : AtLineEnd rest) (oneLine' : Byte.lineFeed ∉ other) (stops' : AtLineEnd rest')
    (same : line ++ rest = other ++ rest') : line = other ∧ rest = rest' := by
  refine append_inj_of_stops (bne_lineFeed oneLine) ?_ (bne_lineFeed oneLine') ?_ same
  · intro b first
    simp [stops b first]
  · intro b first
    simp [stops' b first]

theorem atLineEnd_lineFeed (tail : List UInt8) : AtLineEnd (Byte.lineFeed :: tail) := by
  intro b first
  exact (Option.some.inj first).symm

/-- Nothing but the end of a string, of a line or of the text stands ahead. -/
def AtStringEnd (rest : List UInt8) : Prop :=
  ∀ b ∈ rest.head?, b = Byte.quote ∨ b = Byte.lineFeed

theorem atStringEnd_quote (tail : List UInt8) : AtStringEnd (Byte.quote :: tail) := by
  intro b first
  exact .inl (Option.some.inj first).symm

theorem AtLineEnd.atStringEnd {rest : List UInt8} (stops : AtLineEnd rest) : AtStringEnd rest :=
  fun b first => .inr (stops b first)

/-- The content of a string up to its end. -/
theorem string_inj {content rest other rest' : List UInt8} (noQuote : Byte.quote ∉ content)
    (oneLine : Byte.lineFeed ∉ content) (stops : AtStringEnd rest) (noQuote' : Byte.quote ∉ other)
    (oneLine' : Byte.lineFeed ∉ other) (stops' : AtStringEnd rest')
    (same : content ++ rest = other ++ rest') : content = other ∧ rest = rest' := by
  have inside {bytes : List UInt8} (noQuote : Byte.quote ∉ bytes)
      (oneLine : Byte.lineFeed ∉ bytes) :
      ∀ b ∈ bytes, (b != Byte.quote && b != Byte.lineFeed) = true := by
    intro b member
    have notQuote : b ≠ Byte.quote := fun isQuote => noQuote (isQuote ▸ member)
    simpa [notQuote] using bne_lineFeed oneLine b member
  have outside {bytes : List UInt8} (stops : AtStringEnd bytes) :
      ∀ b ∈ bytes.head?, (b != Byte.quote && b != Byte.lineFeed) = false := by
    intro b first
    rcases stops b first with rfl | rfl <;> decide
  exact append_inj_of_stops (inside noQuote oneLine) (outside stops) (inside noQuote' oneLine')
    (outside stops') same

/-! ## Gaps -/

/-- What ends a gap: a byte that starts a token, or the end of the text. -/
structure EndsGap (atEnd : Bool) (rest : List UInt8) : Prop where
  stops : ∀ b ∈ rest.head?, Byte.startsTrivia b = false
  ended : atEnd = true → rest = []

theorem EndsGap.nil (atEnd : Bool) : EndsGap atEnd [] :=
  ⟨fun _ first => absurd first (by simp), fun _ => rfl⟩

namespace Trivia

variable {atEnd atEnd' : Bool} {gap other rest rest' : List UInt8}

theorem startsTrivia_head (trivia : Trivia atEnd gap) :
    ∀ b ∈ gap.head?, Byte.startsTrivia b = true := by
  intro b first
  cases trivia with
  | nil => simp at first
  | white isWhite =>
      cases first
      exact Byte.startsTrivia_iff.mpr (.inl isWhite)
  | comment | lastComment =>
      cases first
      decide

/-- Where no trivia start, a gap is empty. -/
theorem eq_nil (trivia : Trivia atEnd gap) (stops : ∀ b ∈ rest.head?, Byte.startsTrivia b = false)
    (same : rest = gap ++ rest') : gap = [] := by
  cases gap with
  | nil => rfl
  | cons b tail =>
      have starts := trivia.startsTrivia_head b rfl
      rw [stops b (by rw [same]; rfl)] at starts
      exact Bool.noConfusion starts

/-- A gap is determined by the text that it begins. -/
theorem unique (trivia : Trivia atEnd gap) (also : Trivia atEnd' other)
    (ends : EndsGap atEnd rest) (ends' : EndsGap atEnd' rest')
    (same : gap ++ rest = other ++ rest') : gap = other := by
  induction trivia generalizing other with
  | nil => exact (also.eq_nil ends.stops same).symm
  | @white b gap isWhite more ih =>
      have whole := Trivia.white isWhite more
      cases also with
      | nil => exact whole.eq_nil ends'.stops same.symm
      | white _ more' =>
          obtain ⟨rfl, further⟩ := List.cons.inj same
          rw [ih more' further]
      | comment | lastComment =>
          have isHash : b = Byte.hash := (List.cons.inj same).1
          rw [isHash] at isWhite
          exact absurd isWhite (by decide)
  | @comment text gap oneLine more ih =>
      have whole := Trivia.comment oneLine more
      cases also with
      | nil => exact whole.eq_nil ends'.stops same.symm
      | white isWhite =>
          have isHash := (List.cons.inj same).1
          rw [← isHash] at isWhite
          exact absurd isWhite (by decide)
      | comment oneLine' more' =>
          simp only [List.cons_append, List.append_assoc, List.cons.injEq, true_and] at same
          obtain ⟨rfl, further⟩ := line_inj oneLine (atLineEnd_lineFeed _) oneLine'
            (atLineEnd_lineFeed _) same
          rw [ih more' further]
      | lastComment ended oneLine' =>
          rw [ends'.ended ended] at same
          simp only [List.cons_append, List.append_assoc, List.append_nil, List.cons.injEq,
            true_and] at same
          exact absurd (same ▸ by simp) oneLine'
  | @lastComment text ended oneLine =>
      have whole := Trivia.lastComment ended oneLine
      rw [ends.ended ended] at same
      cases also with
      | nil => exact whole.eq_nil ends'.stops same.symm
      | white isWhite =>
          have isHash := (List.cons.inj same).1
          rw [← isHash] at isWhite
          exact absurd isWhite (by decide)
      | comment oneLine' more' =>
          simp only [List.cons_append, List.append_assoc, List.append_nil, List.cons.injEq,
            true_and] at same
          exact absurd (same ▸ by simp) oneLine
      | lastComment ended' oneLine' =>
          rw [ends'.ended ended'] at same
          simpa using same

end Trivia

/-! ## Lexemes -/

namespace Lexeme

variable {b : UInt8} {l l' : Lexeme} {e e' : Option LexicalError}
  {spelling rest other rest' : List UInt8}

namespace StartsWith

theorem string (starts : l.StartsWith b) (isQuote : b = Byte.quote) :
    ∃ text, l = .literal .string text := by
  subst isQuote
  cases l with
  | literal form text =>
      cases form with
      | string => exact ⟨text, rfl⟩
      | int32 | float64 =>
          exact absurd (show Byte.isDigit Byte.quote = true from starts) (by decide)
      | char => exact absurd (show Byte.quote = Byte.apostrophe from starts) (by decide)
  | word => exact absurd (show Byte.isNameStart Byte.quote = true from starts) (by decide)
  | punctuation | unknown => exact absurd rfl starts.2.2.1

theorem char (starts : l.StartsWith b) (isApostrophe : b = Byte.apostrophe) :
    ∃ text, l = .literal .char text := by
  subst isApostrophe
  cases l with
  | literal form text =>
      cases form with
      | char => exact ⟨text, rfl⟩
      | int32 | float64 =>
          exact absurd (show Byte.isDigit Byte.apostrophe = true from starts) (by decide)
      | string => exact absurd (show Byte.apostrophe = Byte.quote from starts) (by decide)
  | word => exact absurd (show Byte.isNameStart Byte.apostrophe = true from starts) (by decide)
  | punctuation | unknown => exact absurd rfl starts.2.2.2

end StartsWith

namespace Spelled

/-! ### One reading for each form -/

theorem unique_number {form form' : LiteralForm} {text text' : List UInt8}
    (spelled : (literal form text).Spelled e spelling rest)
    (also : (literal form' text').Spelled e' other rest')
    (isNumber : form = .int32 ∨ form = .float64) (isNumber' : form' = .int32 ∨ form' = .float64)
    (same : spelling ++ rest = other ++ rest') :
    literal form text = literal form' text' ∧ e = e' ∧ spelling = other := by
  obtain ⟨rfl, rfl, longest, point⟩ := spelled.number_longest isNumber
  obtain ⟨rfl, rfl, longest', point'⟩ := also.number_longest isNumber'
  have sameSpelling := longest.unique (same ▸ longest')
  subst sameSpelling
  have sameForm : form = form' := by
    rw [← point'] at point
    rcases isNumber with rfl | rfl
    · rcases isNumber' with rfl | rfl
      · rfl
      · exact point.mpr rfl
    · exact (point.mp rfl).symm
  exact ⟨by rw [sameForm], rfl, rfl⟩

theorem unique_word {text text' : List UInt8} (spelled : (Lexeme.word text).Spelled e spelling rest)
    (also : (Lexeme.word text').Spelled e' other rest') (same : spelling ++ rest = other ++ rest') :
    Lexeme.word text = .word text' ∧ e = e' ∧ spelling = other := by
  obtain ⟨rfl, rfl, longest⟩ := spelled.word_longest
  obtain ⟨rfl, rfl, longest'⟩ := also.word_longest
  have sameSpelling := longest.unique (same ▸ longest')
  exact ⟨by rw [sameSpelling], rfl, sameSpelling⟩

/-- What stands behind the content of a string: its quote, or the end of its line. -/
theorem string_content {text : List UInt8}
    (spelled : (literal .string text).Spelled e spelling rest) :
    Byte.quote ∉ text ∧ Byte.lineFeed ∉ text ∧
      ((e = none ∧ spelling = Byte.quote :: text ++ [Byte.quote]) ∨
        (e = some .unterminatedString ∧ spelling = Byte.quote :: text ∧ AtLineEnd rest)) := by
  cases spelled with
  | string noQuote oneLine => exact ⟨noQuote, oneLine, .inl ⟨rfl, rfl⟩⟩
  | openString noQuote oneLine stops => exact ⟨noQuote, oneLine, .inr ⟨rfl, rfl, stops⟩⟩

theorem unique_string {text text' : List UInt8}
    (spelled : (literal .string text).Spelled e spelling rest)
    (also : (literal .string text').Spelled e' other rest')
    (same : spelling ++ rest = other ++ rest') :
    literal .string text = literal .string text' ∧ e = e' ∧ spelling = other := by
  obtain ⟨noQuote, oneLine, closing⟩ := spelled.string_content
  obtain ⟨noQuote', oneLine', closing'⟩ := also.string_content
  rcases closing with ⟨rfl, rfl⟩ | ⟨rfl, rfl, stops⟩ <;>
    rcases closing' with ⟨rfl, rfl⟩ | ⟨rfl, rfl, stops'⟩ <;>
    simp only [List.cons_append, List.append_assoc, List.nil_append, List.cons.injEq,
      true_and] at same
  · obtain ⟨rfl, _⟩ := string_inj noQuote oneLine (atStringEnd_quote _) noQuote' oneLine'
      (atStringEnd_quote _) same
    exact ⟨rfl, rfl, rfl⟩
  · obtain ⟨_, rfl⟩ := string_inj noQuote oneLine (atStringEnd_quote _) noQuote' oneLine'
      stops'.atStringEnd same
    exact absurd (stops' Byte.quote rfl) (by decide)
  · obtain ⟨_, rfl⟩ := string_inj noQuote oneLine stops.atStringEnd noQuote' oneLine'
      (atStringEnd_quote _) same
    exact absurd (stops Byte.quote rfl) (by decide)
  · obtain ⟨rfl, _⟩ := string_inj noQuote oneLine stops.atStringEnd noQuote' oneLine'
      stops'.atStringEnd same
    exact ⟨rfl, rfl, rfl⟩

/-- What stands behind the content of a char literal: its apostrophe, or something else. -/
theorem char_content {text : List UInt8} (spelled : (literal .char text).Spelled e spelling rest) :
    (∃ b, b ≠ Byte.lineFeed ∧ text = [b] ∧ e = none ∧
        spelling = [Byte.apostrophe, b, Byte.apostrophe]) ∨
      (∃ b, b ≠ Byte.lineFeed ∧ text = [b] ∧ e = some .unterminatedChar ∧
        spelling = [Byte.apostrophe, b] ∧ Byte.apostrophe ∉ rest.head?) ∨
      (text = [] ∧ e = some .unterminatedChar ∧ spelling = [Byte.apostrophe] ∧
        AtLineEnd rest) := by
  cases spelled with
  | char oneLine => exact .inl ⟨_, oneLine, rfl, rfl, rfl⟩
  | openChar oneLine stops => exact .inr (.inl ⟨_, oneLine, rfl, rfl, rfl, stops⟩)
  | emptyChar stops => exact .inr (.inr ⟨rfl, rfl, rfl, stops⟩)

theorem unique_char {text text' : List UInt8}
    (spelled : (literal .char text).Spelled e spelling rest)
    (also : (literal .char text').Spelled e' other rest')
    (same : spelling ++ rest = other ++ rest') :
    literal .char text = literal .char text' ∧ e = e' ∧ spelling = other := by
  have notAtEnd {b : UInt8} {tail : List UInt8} (oneLine : b ≠ Byte.lineFeed) :
      ¬ AtLineEnd (b :: tail) := fun stops => oneLine (stops b rfl)
  rcases spelled.char_content with
      ⟨b, oneLine, rfl, rfl, rfl⟩ | ⟨b, oneLine, rfl, rfl, rfl, stops⟩ | ⟨rfl, rfl, rfl, stops⟩ <;>
    rcases also.char_content with
      ⟨b', oneLine', rfl, rfl, rfl⟩ | ⟨b', oneLine', rfl, rfl, rfl, stops'⟩ |
        ⟨rfl, rfl, rfl, stops'⟩ <;>
    simp only [List.cons_append, List.nil_append, List.cons.injEq, true_and] at same
  · simp [same.1]
  · exact absurd (by rw [← same.2]; rfl) stops'
  · exact absurd (same ▸ stops') (notAtEnd oneLine)
  · exact absurd (by rw [same.2]; rfl) stops
  · simp [same.1]
  · exact absurd (same ▸ stops') (notAtEnd oneLine)
  · exact absurd (same ▸ stops) (notAtEnd oneLine')
  · exact absurd (same ▸ stops) (notAtEnd oneLine')
  · exact ⟨rfl, rfl, rfl⟩

theorem unique_mark {mark mark' : Punctuation}
    (spelled : (punctuation mark).Spelled e spelling rest)
    (also : (punctuation mark').Spelled e' other rest')
    (same : spelling ++ rest = other ++ rest') :
    punctuation mark = punctuation mark' ∧ e = e' ∧ spelling = other := by
  obtain ⟨rfl, rfl, longest⟩ := spelled.mark_longest
  obtain ⟨rfl, rfl, longest'⟩ := also.mark_longest
  have sameSpelling := longest.unique (same ▸ longest')
  exact ⟨by rw [Punctuation.bytes_injective sameSpelling], rfl, sameSpelling⟩

/-- A byte that begins a mark is not unknown. -/
theorem mark_ne_unknown {mark : Punctuation} {byte : UInt8}
    (spelled : (punctuation mark).Spelled e spelling rest)
    (also : (Lexeme.unknown byte).Spelled e' other rest') : spelling ++ rest ≠ other ++ rest' := by
  intro same
  obtain ⟨_, _, longest⟩ := spelled.mark_longest
  exact also.unknown_noMark.2.2 spelling longest.mem (same ▸ longest.begins)

/-- A text begins with one lexeme, spelled in one way. -/
theorem unique (spelled : l.Spelled e spelling rest) (also : l'.Spelled e' other rest')
    (same : spelling ++ rest = other ++ rest') : l = l' ∧ e = e' ∧ spelling = other := by
  obtain ⟨b, tail, split⟩ := List.exists_cons_of_ne_nil spelled.spelling_ne_nil
  have first : b ∈ spelling.head? := by simp [split]
  have first' : b ∈ other.head? := by
    rw [← List.head?_append_of_ne_nil other also.spelling_ne_nil, ← same,
      List.head?_append_of_ne_nil spelling spelled.spelling_ne_nil]
    exact first
  have starts := spelled.startsWith first
  have starts' := also.startsWith first'
  -- The first byte chooses the form, and each form leaves one reading.
  cases l with
  | literal form text =>
      cases form with
      | int32 | float64 =>
          obtain ⟨form', text', isNumber', rfl⟩ := starts'.number starts
          exact unique_number spelled also (by simp) isNumber' same
      | string =>
          obtain ⟨text', rfl⟩ := starts'.string starts
          exact unique_string spelled also same
      | char =>
          obtain ⟨text', rfl⟩ := starts'.char starts
          exact unique_char spelled also same
  | word text =>
      obtain ⟨text', rfl⟩ := starts'.word starts
      exact unique_word spelled also same
  | punctuation mark =>
      obtain ⟨notDigit, notName, notQuote, notApostrophe⟩ := starts
      rcases starts'.mark notDigit notName notQuote notApostrophe with ⟨mark', rfl⟩ | ⟨byte, rfl⟩
      · exact unique_mark spelled also same
      · exact absurd same (mark_ne_unknown spelled also)
  | unknown byte =>
      obtain ⟨notDigit, notName, notQuote, notApostrophe⟩ := starts
      rcases starts'.mark notDigit notName notQuote notApostrophe with ⟨mark', rfl⟩ | ⟨byte', rfl⟩
      · exact absurd same.symm (mark_ne_unknown also spelled)
      · obtain ⟨rfl, rfl, _⟩ := spelled.unknown_noMark
        obtain ⟨rfl, rfl, _⟩ := also.unknown_noMark
        obtain ⟨rfl, _⟩ := List.cons.inj same
        exact ⟨rfl, rfl, rfl⟩

end Spelled

end Lexeme

/-! ## Cuts -/

/-- A token ends the gap before it. -/
theorem Lexeme.Spelled.endsGap {l : Lexeme} {e : Option LexicalError} {spelling rest : List UInt8}
    (spelled : l.Spelled e spelling rest)
    (atToken : ∀ b ∈ spelling.head?, Byte.startsTrivia b = false) :
    EndsGap false (spelling ++ rest) := by
  refine ⟨?_, fun ended => Bool.noConfusion ended⟩
  rw [List.head?_append_of_ne_nil spelling spelled.spelling_ne_nil]
  exact atToken

namespace Cut

variable {rest last last' : List UInt8} {pieces pieces' : List Piece}

/-- Trivia up to the end of a text hold no piece. -/
theorem done_inv (trivia : Trivia true last) (cut : Cut last pieces last') :
    pieces = [] ∧ last' = last := by
  generalize whole : last = text at cut
  cases cut with
  | done => exact ⟨rfl, rfl⟩
  | @piece p rest _ _ trivia' atToken spelled =>
      have split : last ++ [] = p.gap ++ (p.spelling ++ rest) := by
        rw [List.append_nil, whole]
      have sameGap := trivia.unique trivia' (.nil true) (spelled.endsGap atToken) split
      rw [sameGap] at split
      have nothing := List.append_cancel_left split
      exact absurd (List.append_eq_nil_iff.mp nothing.symm).1 spelled.spelling_ne_nil

/-- A cut of a text that begins with a piece begins with that piece. -/
theorem piece_inv {p : Piece} (trivia : Trivia false p.gap)
    (atToken : ∀ b ∈ p.spelling.head?, Byte.startsTrivia b = false)
    (spelled : p.lexeme.Spelled p.error p.spelling rest)
    (cut : Cut (p.gap ++ (p.spelling ++ rest)) pieces last) :
    ∃ further, pieces = p :: further ∧ Cut rest further last := by
  have ends := spelled.endsGap atToken
  generalize whole : p.gap ++ (p.spelling ++ rest) = text at cut
  cases cut with
  | done trivia' =>
      rw [← List.append_nil last] at whole
      have sameGap := trivia.unique trivia' ends (.nil true) whole
      rw [sameGap] at whole
      have nothing := List.append_cancel_left whole
      exact absurd (List.append_eq_nil_iff.mp nothing).1 spelled.spelling_ne_nil
  | @piece q rest' further _ trivia' atToken' spelled' more' =>
      have sameGap := trivia.unique trivia' ends (spelled'.endsGap atToken') whole
      rw [sameGap] at whole
      have sameToken := List.append_cancel_left whole
      obtain ⟨sameLexeme, sameError, sameSpelling⟩ := spelled.unique spelled' sameToken
      rw [sameSpelling] at sameToken
      have sameRest := List.append_cancel_left sameToken
      have samePiece : q = p := by
        show q = Piece.mk p.gap p.spelling p.lexeme p.error
        rw [sameGap, sameSpelling, sameLexeme, sameError]
      exact ⟨further, by rw [samePiece], sameRest ▸ more'⟩

/-- **A text has one cut.** -/
theorem unique {text : List UInt8} (cut : Cut text pieces last) (also : Cut text pieces' last') :
    pieces = pieces' ∧ last = last' := by
  induction cut generalizing pieces' last' with
  | done trivia =>
      obtain ⟨rfl, rfl⟩ := done_inv trivia also
      exact ⟨rfl, rfl⟩
  | piece trivia atToken spelled more ih =>
      obtain ⟨further, rfl, cut⟩ := piece_inv trivia atToken spelled also
      obtain ⟨rfl, rfl⟩ := ih cut
      exact ⟨rfl, rfl⟩

end Cut

/-- Any cut of a source tells what a run over it gives. -/
theorem Source.lex_eq_of_cut {σ : Type} [Sink σ] {source : Source} {pieces : List Piece}
    {last : List UInt8} (cut : Cut source.bytes pieces last) (sink : σ) (known : Interner) :
    source.lex sink known =
      (⟨Piece.tokens .start known pieces last, (Piece.diagnostics .start pieces).length⟩,
        Sink.emitAll source (Piece.diagnostics .start pieces) sink,
        Piece.names known pieces) := by
  obtain ⟨pieces', last', also, run⟩ := source.lex_of_cut sink known
  obtain ⟨rfl, rfl⟩ := cut.unique also
  exact run

end Lexis
