/-
# Lexis.Proofs.Reports -- what is reported about a source can be read off its tokens

An error is reported while its token is taken, but nothing of it is kept in the
token.  Nothing is lost: a literal has its closing delimiter exactly when it
covers two bytes more than its content has, and an unknown byte is still in the
text.  `Token.diagnostic?` finds the diagnostic again, and the diagnostics of a
run are those of its tokens, in order (`filterMap_diagnostic?`).

`reports_of_tokens` says so of every run, and says by the text alone which
literals are reported.
-/
import Lexis.Proofs.Tiling
import Mathlib.Data.List.Nodup

namespace Lexis

set_option autoImplicit false

namespace Token

/-- What is wrong with a token, by its length and by the text. -/
def fault? (t : Token) (text : List UInt8) : Option String :=
  match t.content with
  | .unknown =>
      some ("unknown token '" ++ Escaped.escaped (text.getD t.position.offset 0) ++ "'")
  | .literal .string content =>
      if t.length = content.bytes.length + 2 then none else some "unterminated string literal"
  | .literal .char content =>
      if t.length = content.bytes.length + 2 then none else some "unterminated char literal"
  | _ => none

/-- The diagnostic about a token. -/
def diagnostic? (text : List UInt8) (t : Token) : Option Diagnostic :=
  (t.fault? text).map fun message => ⟨t.position, message⟩

/-- The bytes after the first byte of a token. -/
def afterFirst (t : Token) (text : List UInt8) : List UInt8 :=
  text.drop (t.position.offset + 1)

/-- The next quote comes before the next line feed. -/
def IsClosedString (t : Token) (text : List UInt8) : Prop :=
  (t.afterFirst text).find? (fun b => b == Byte.quote || b == Byte.lineFeed) = some Byte.quote

/-- One byte of the same line is between the apostrophes. -/
def IsClosedChar (t : Token) (text : List UInt8) : Prop :=
  ∃ b, b ≠ Byte.lineFeed ∧ [b, Byte.apostrophe] <+: t.afterFirst text

end Token

/-- The diagnostics are those of the tokens. -/
structure Reports (text : List UInt8) (lexed : Lexed) (ds : List Diagnostic) : Prop where
  eq_filterMap : ds = lexed.tokens.filterMap (Token.diagnostic? text)
  errors_eq : lexed.errors = ds.length
  increasing : ds.Pairwise fun d e => d.position.offset < e.position.offset
  string_iff : ∀ t ∈ lexed.tokens, t.kind = .literal .string →
    ((∃ d ∈ ds, d.position = t.position) ↔ ¬ t.IsClosedString text)
  char_iff : ∀ t ∈ lexed.tokens, t.kind = .literal .char →
    ((∃ d ∈ ds, d.position = t.position) ↔ ¬ t.IsClosedChar text)

/-! ## One token -/

theorem Lexeme.eq_literal_of_kind {l : Lexeme} {known : Interner} {form : LiteralForm}
    (isLiteral : (l.content known).1.kind = .literal form) : ∃ text, l = .literal form text := by
  cases l with
  | literal form text =>
      cases isLiteral
      exact ⟨text, rfl⟩
  | word bytes =>
      unfold content at isLiteral
      dsimp only at isLiteral
      split at isLiteral <;> cases isLiteral
  | punctuation | unknown => cases isLiteral

namespace Token

theorem fault?_string (content text : List UInt8) (position : Position) (length : Nat) :
    fault? ⟨.literal .string ⟨content⟩, position, length⟩ text =
      if length = content.length + 2 then none else some "unterminated string literal" := rfl

theorem fault?_char (content text : List UInt8) (position : Position) (length : Nat) :
    fault? ⟨.literal .char ⟨content⟩, position, length⟩ text =
      if length = content.length + 2 then none else some "unterminated char literal" := rfl

theorem diagnostic?_eq_some_iff {t : Token} {text : List UInt8} {d : Diagnostic} :
    t.diagnostic? text = some d ↔ t.fault? text = some d.message ∧ d.position = t.position := by
  unfold diagnostic?
  rw [Option.map_eq_some_iff]
  constructor
  · rintro ⟨message, found, rfl⟩
    exact ⟨found, rfl⟩
  · rintro ⟨found, same⟩
    exact ⟨d.message, found, by rw [← same]⟩

namespace Stands

variable {text : List UInt8} {t : Token} {e : Option LexicalError}

/-- The fault of a token is the error that was found when it was taken. -/
theorem fault?_eq (stands : t.Stands text e) :
    t.fault? text = e.map LexicalError.message := by
  cases stands with
  | eof => rfl
  | @lexeme front spelling rest l e known split atToken spelled =>
      cases spelled with
      | int32 | float64 | mark => rfl
      | @word b tail =>
          unfold fault? Lexeme.content
          dsimp only
          cases Keyword.ofText? (Utf8.read (b :: tail)) <;> rfl
      | string =>
          refine (fault?_string _ _ _ _).trans (if_pos ?_)
          simp
      | openString =>
          refine (fault?_string _ _ _ _).trans (if_neg ?_)
          simp
      | char => exact (fault?_char _ _ _ _).trans (if_pos rfl)
      | openChar | emptyChar =>
          refine (fault?_char _ _ _ _).trans (if_neg ?_)
          simp
      | @unknown b rest =>
          have here : text.getD front.length 0 = b := by
            rw [split, List.getD_eq_getElem?_getD, List.getElem?_append_right (Nat.le_refl _),
              Nat.sub_self]
            rfl
          show some _ = some _
          rw [Position.offset_stepOverAll_start, here]
          rfl

theorem afterFirst_eq {front tail rest : List UInt8} {b : UInt8} {content : Content}
    (split : text = front ++ (b :: tail ++ rest)) (length : Nat) :
    (Token.mk content (Position.start.stepOverAll front) length).afterFirst text =
      tail ++ rest := by
  unfold afterFirst
  rw [Position.offset_stepOverAll_start, split, ← List.drop_drop, List.drop_left]
  rfl

/-- The search for a closing quote goes past the content of a string. -/
theorem find?_content {content rest : List UInt8} (noQuote : Byte.quote ∉ content)
    (oneLine : Byte.lineFeed ∉ content) :
    (content ++ rest).find? (fun b => b == Byte.quote || b == Byte.lineFeed) =
      rest.find? (fun b => b == Byte.quote || b == Byte.lineFeed) := by
  have nothing : content.find? (fun b => b == Byte.quote || b == Byte.lineFeed) = none := by
    rw [List.find?_eq_none]
    intro b member stops
    rcases Bool.or_eq_true_iff.mp stops with isQuote | isFeed
    · exact noQuote (beq_iff_eq.mp isQuote ▸ member)
    · exact oneLine (beq_iff_eq.mp isFeed ▸ member)
  rw [List.find?_append, nothing, Option.none_or]

/-- A string is closed exactly when nothing was found wrong with it. -/
theorem isClosedString_iff (stands : t.Stands text e) (isString : t.kind = .literal .string) :
    t.IsClosedString text ↔ e = none := by
  unfold IsClosedString
  cases stands with
  | eof => cases isString
  | @lexeme front spelling rest l e known split atToken spelled =>
      obtain ⟨content, rfl⟩ := Lexeme.eq_literal_of_kind isString
      cases spelled with
      | string noQuote oneLine =>
          rw [List.cons_append] at split
          rw [afterFirst_eq split, List.append_assoc, find?_content noQuote oneLine]
          exact iff_of_true rfl rfl
      | openString noQuote oneLine stops =>
          rw [afterFirst_eq split, find?_content noQuote oneLine]
          refine iff_of_false ?_ (Option.some_ne_none _)
          intro found
          cases rest with
          | nil => cases found
          | cons b tail =>
              have feed := stops b rfl
              subst feed
              exact absurd (Option.some.inj found) (by decide)

theorem isClosedChar_iff (stands : t.Stands text e) (isChar : t.kind = .literal .char) :
    t.IsClosedChar text ↔ e = none := by
  unfold IsClosedChar
  cases stands with
  | eof => cases isChar
  | @lexeme front spelling rest l e known split atToken spelled =>
      obtain ⟨content, rfl⟩ := Lexeme.eq_literal_of_kind isChar
      cases spelled with
      | @char b _ oneLine =>
          rw [afterFirst_eq split]
          exact iff_of_true ⟨b, oneLine, List.prefix_append _ _⟩ rfl
      | openChar _ stops =>
          rw [afterFirst_eq split]
          refine iff_of_false ?_ (Option.some_ne_none _)
          rintro ⟨c, _, more, same⟩
          have atApostrophe : Byte.apostrophe :: more = rest := (List.cons.inj same).2
          apply stops
          rw [← atApostrophe]
          rfl
      | emptyChar stops =>
          rw [afterFirst_eq split]
          refine iff_of_false ?_ (Option.some_ne_none _)
          rintro ⟨c, oneLine, more, same⟩
          apply oneLine
          apply stops
          rw [← List.nil_append rest, ← same]
          rfl

theorem diagnostic?_eq_none_iff (stands : t.Stands text e) :
    t.diagnostic? text = none ↔ e = none := by
  rw [diagnostic?, stands.fault?_eq, Option.map_eq_none_iff, Option.map_eq_none_iff]

end Stands

/-! ## All tokens -/

/-- Offsets tell the tokens apart, and so they tell which are reported. -/
theorem reported_iff {text : List UInt8} {tokens : List Token} {t : Token}
    (increasing : tokens.Pairwise fun t u => t.position.offset < u.position.offset)
    (member : t ∈ tokens) :
    (∃ d ∈ tokens.filterMap (diagnostic? text), d.position = t.position) ↔
      t.diagnostic? text ≠ none := by
  have distinct : (tokens.map fun t => t.position.offset).Nodup :=
    List.pairwise_map.mpr (increasing.imp Nat.ne_of_lt)
  constructor
  · rintro ⟨d, isReported, here⟩
    obtain ⟨u, inTokens, found⟩ := List.mem_filterMap.mp isReported
    have there := (diagnostic?_eq_some_iff.mp found).2
    have same : u = t := by
      apply List.inj_on_of_nodup_map distinct inTokens member
      show u.position.offset = t.position.offset
      rw [← there, here]
    rw [← same, found]
    exact Option.some_ne_none d
  · intro faulty
    obtain ⟨d, found⟩ := Option.ne_none_iff_exists'.mp faulty
    exact ⟨d, List.mem_filterMap.mpr ⟨t, member, found⟩, (diagnostic?_eq_some_iff.mp found).2⟩

end Token

/-- Token by token, what is reported is what the tokens show. -/
theorem Piece.filterMap_diagnostic? {text last : List UInt8} {known : Interner}
    (pieces : List Piece) (start : Position)
    (stand : List.Forall₂ (Token.Stands text) (tokens start known pieces last)
      (pieces.map error ++ [none])) :
    (tokens start known pieces last).filterMap (Token.diagnostic? text) =
      diagnostics start pieces := by
  induction pieces generalizing start known with
  | nil => rfl
  | cons p pieces ih =>
      obtain ⟨first, later⟩ := List.forall₂_cons.mp stand
      have here : (p.token start known).diagnostic? text = p.diagnostic? start := by
        rw [Token.diagnostic?, first.fault?_eq, Option.map_map]
        rfl
      rw [tokens, diagnostics, List.filterMap_cons, here, ih _ later]
      cases p.diagnostic? start <;> rfl

theorem Cut.reports {text last : List UInt8} {pieces : List Piece} (cut : Cut text pieces last)
    (known : Interner) :
    Reports text
      ⟨Piece.tokens .start known pieces last, (Piece.diagnostics .start pieces).length⟩
      (Piece.diagnostics .start pieces) := by
  have shown := Piece.filterMap_diagnostic? pieces .start (cut.forall₂_stands [] known)
  have increasing : (Piece.tokens .start known pieces last).Pairwise
      fun t u => t.position.offset < u.position.offset :=
    (cut.tiled [] known).pairwise.imp And.left
  refine ⟨shown.symm, rfl, ?_, ?_, ?_⟩
  · rw [← shown]
    refine increasing.filterMap _ ?_
    intro t u before d ofFirst e ofSecond
    rw [(Token.diagnostic?_eq_some_iff.mp ofFirst).2, (Token.diagnostic?_eq_some_iff.mp ofSecond).2]
    exact before
  · intro t member isString
    obtain ⟨e, stands⟩ := cut.stands_of_mem_tokens known t member
    rw [← shown]
    exact (Token.reported_iff increasing member).trans
      (not_congr (stands.diagnostic?_eq_none_iff.trans (stands.isClosedString_iff isString).symm))
  · intro t member isChar
    obtain ⟨e, stands⟩ := cut.stands_of_mem_tokens known t member
    rw [← shown]
    exact (Token.reported_iff increasing member).trans
      (not_congr (stands.diagnostic?_eq_none_iff.trans (stands.isClosedChar_iff isChar).symm))

/-- **What a run reports is what its tokens show**, for every sink: it is given
those diagnostics, in order, and nothing else; and a backlog holds just them. -/
theorem Source.reports_of_tokens {σ : Type} [Sink σ] (source : Source) (sink : σ)
    (known : Interner) :
    (∃ ds, Reports source.bytes (source.lex sink known).1 ds ∧
      (source.lex sink known).2.1 = Sink.emitAll source ds sink) ∧
    Reports source.bytes (source.lex Backlog.empty known).1
      (source.lex Backlog.empty known).2.1.toList := by
  constructor
  · obtain ⟨pieces, last, cut, run⟩ := source.lex_of_cut sink known
    rw [run]
    exact ⟨_, cut.reports known, rfl⟩
  · obtain ⟨pieces, last, cut, run⟩ := source.lex_of_cut Backlog.empty known
    rw [run, Backlog.toList_emitAll]
    exact cut.reports known

-- A char literal of an apostrophe is closed, an apostrophe before a line feed is not its end.
example :
    let source := Source.padded "quotes" [0x27, 0x27, 0x27, 0x27, 0x27, 0x0A] (by decide)
    (source.lex Backlog.empty .empty).2.1.toList =
      [⟨⟨1, 4, 3⟩, "unterminated char literal"⟩] := by decide +kernel

end Lexis
