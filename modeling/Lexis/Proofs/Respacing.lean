/-
# Lexis.Proofs.Respacing -- tokens read the same whatever trivia stand between them

The spans of the tokens of a source can be written again with other trivia before,
between and behind them.  `Respaced spans text` says so of a text, with the one
condition that what follows a span starts on a new line.  Each span is then read as
it was before: a line feed may stand behind every lexeme (`before_lineFeed`), also
behind a string that is never closed.

`Cut.respaced` makes a cut of the new text from a cut of the old one, piece by piece,
and `respaced_readsLike` compares the two runs: contents, lengths, symbols and what is
reported at each token are the same, and only positions differ.
-/
import Lexis.Proofs.Lookahead
import Lexis.Proofs.Reports

namespace Lexis

set_option autoImplicit false

/-- Spans with trivia before, between and behind them.  Only the last comment may go
without a line feed. -/
inductive Respaced : List (List UInt8) → List UInt8 → Prop
  | last {gap : List UInt8} (trivia : Trivia true gap) : Respaced [] gap
  | token {gap span following : List UInt8} {spans : List (List UInt8)}
      (trivia : Trivia false gap) (newLine : following.head? = some Byte.lineFeed)
      (more : Respaced spans following) : Respaced (span :: spans) (gap ++ (span ++ following))

/-- The bytes of each token before the end. -/
def Source.spans (source : Source) (known : Interner) : List (List UInt8) :=
  ((source.lex Backlog.empty known).1.tokens.filter fun t => !t.isEof).map
    fun t => t.span source.bytes

/-- What is reported at each token. -/
def Token.notes (tokens : List Token) (ds : List Diagnostic) : List (List String) :=
  tokens.map fun t => (ds.filter fun d => d.position = t.position).map Diagnostic.message

/-- Two sources are read alike: all is the same but the positions. -/
structure Source.ReadsLike (source other : Source) (known : Interner) : Prop where
  contents : (source.lex Backlog.empty known).1.tokens.map (fun t => (t.content, t.length)) =
    (other.lex Backlog.empty known).1.tokens.map (fun t => (t.content, t.length))
  messages : (source.lex Backlog.empty known).2.1.toList.map Diagnostic.message =
    (other.lex Backlog.empty known).2.1.toList.map Diagnostic.message
  notes : Token.notes (source.lex Backlog.empty known).1.tokens
      (source.lex Backlog.empty known).2.1.toList =
    Token.notes (other.lex Backlog.empty known).1.tokens
      (other.lex Backlog.empty known).2.1.toList
  names : (source.lex Backlog.empty known).2.2 = (other.lex Backlog.empty known).2.2

/-! ## Spans -/

/-- The spans of a cut are the spellings of its pieces, wherever in a text it stands. -/
theorem Cut.map_span {ahead last : List UInt8} {pieces : List Piece} (cut : Cut ahead pieces last)
    (before : List UInt8) (known : Interner) :
    ((Piece.tokens (Position.start.stepOverAll before) known pieces last).filter
        fun t => !t.isEof).map (fun t => t.span (before ++ ahead)) =
      pieces.map Piece.spelling := by
  induction cut generalizing before known with
  | done => rfl
  | @piece p rest pieces last _ _ spelled _ ih =>
      have further := ih (before ++ p.gap ++ p.spelling) (p.lexeme.content known).2
      rw [Position.stepOverAll_append, Position.stepOverAll_append, List.append_assoc,
        List.append_assoc] at further
      have offset : (p.token (Position.start.stepOverAll before) known).position.offset =
          (before ++ p.gap).length := by
        rw [← Position.offset_stepOverAll_start, Position.stepOverAll_append]
        rfl
      have here : (p.token (Position.start.stepOverAll before) known).span
          (before ++ (p.gap ++ (p.spelling ++ rest))) = p.spelling :=
        Token.span_eq (List.append_assoc _ _ _).symm offset rfl
      rw [Piece.tokens, List.filter_cons_of_pos (by rw [p.isEof_token]; rfl), List.map_cons,
        List.map_cons, here]
      exact congrArg (p.spelling :: ·) further

theorem Source.spans_eq {source : Source} {pieces : List Piece} {last : List UInt8}
    (cut : Cut source.bytes pieces last) (known : Interner) :
    source.spans known = pieces.map Piece.spelling := by
  rw [spans, lex_eq_of_cut cut]
  exact cut.map_span [] known

/-! ## Cuts that differ in their gaps -/

namespace Piece

/-- The same lexeme, with the same error and spelling; the gaps may differ. -/
structure Alike (p q : Piece) : Prop where
  spelling : p.spelling = q.spelling
  lexeme : p.lexeme = q.lexeme
  error : p.error = q.error

variable {pieces others : List Piece}

theorem map_content_tokens (alike : List.Forall₂ Alike pieces others) (start start' : Position)
    (last last' : List UInt8) (known : Interner) :
    (tokens start known pieces last).map (fun t => (t.content, t.length)) =
      (tokens start' known others last').map (fun t => (t.content, t.length)) := by
  induction alike generalizing start start' known with
  | nil => rfl
  | @cons p q _ _ same _ ih =>
      simp only [tokens, List.map_cons, token, same.lexeme, same.spelling]
      rw [ih]

theorem map_message_diagnostics (alike : List.Forall₂ Alike pieces others)
    (start start' : Position) :
    (diagnostics start pieces).map Diagnostic.message =
      (diagnostics start' others).map Diagnostic.message := by
  induction alike generalizing start start' with
  | nil => rfl
  | @cons p q _ _ same _ ih =>
      have here : (p.diagnostic? start).toList.map Diagnostic.message =
          (q.diagnostic? start').toList.map Diagnostic.message := by
        simp only [diagnostic?, same.error]
        cases q.error <;> rfl
      rw [diagnostics, diagnostics, List.map_append, List.map_append, here, ih]

theorem names_congr (alike : List.Forall₂ Alike pieces others) (known : Interner) :
    names known pieces = names known others := by
  induction alike generalizing known with
  | nil => rfl
  | @cons p q pieces others same _ ih =>
      show names (p.lexeme.content known).2 pieces = names (q.lexeme.content known).2 others
      rw [same.lexeme, ih]

theorem map_error (alike : List.Forall₂ Alike pieces others) :
    pieces.map error = others.map error := by
  induction alike with
  | nil => rfl
  | cons same _ ih => rw [List.map_cons, List.map_cons, same.error, ih]

end Piece

/-- Other trivia between the spans give a cut with the same lexemes. -/
theorem Cut.respaced {text other last : List UInt8} {pieces : List Piece}
    (cut : Cut text pieces last) (spaced : Respaced (pieces.map Piece.spelling) other) :
    ∃ pieces' last', Cut other pieces' last' ∧ List.Forall₂ Piece.Alike pieces' pieces := by
  induction cut generalizing other with
  | done =>
      cases spaced with
      | last trivia => exact ⟨[], other, .done trivia, .nil⟩
  | @piece p rest pieces last _ atToken spelled _ ih =>
      rw [List.map_cons] at spaced
      cases spaced with
      | @token gap _ following _ trivia newLine more =>
          obtain ⟨pieces', last', cut, alike⟩ := ih more
          obtain ⟨tail, rfl⟩ := List.head?_eq_some_iff.mp newLine
          have placed := spelled.before_lineFeed tail
          let q : Piece := { p with gap }
          exact ⟨q :: pieces', last', Cut.piece (p := q) trivia atToken placed cut,
            .cons ⟨rfl, rfl, rfl⟩ alike⟩

/-! ## What is reported at each token -/

namespace Token

/-- What is reported at the position of a token. -/
def reported (t : Token) (ds : List Diagnostic) : List Diagnostic :=
  ds.filter fun d => d.position = t.position

/-- What is reported at a token is its own diagnostic, since no other token stands
there. -/
theorem filter_reported {text : List UInt8} {tokens : List Token} {t : Token}
    (apart : tokens.Pairwise fun t u => t.position ≠ u.position) (member : t ∈ tokens) :
    t.reported (tokens.filterMap (diagnostic? text)) = (t.diagnostic? text).toList := by
  have elsewhere (others : List Token) (noneHere : ∀ u ∈ others, u.position ≠ t.position) :
      t.reported (others.filterMap (diagnostic? text)) = [] := by
    rw [reported, List.filter_eq_nil_iff]
    intro d isReported
    obtain ⟨u, inOthers, found⟩ := List.mem_filterMap.mp isReported
    simp [(diagnostic?_eq_some_iff.mp found).2, noneHere u inOthers]
  obtain ⟨front, back, rfl⟩ := List.append_of_mem member
  obtain ⟨_, behind, before⟩ := List.pairwise_append.mp apart
  have inFront := elsewhere front fun u inFront => before u inFront t List.mem_cons_self
  have inBack := elsewhere back fun u inBack => ((List.pairwise_cons.mp behind).1 u inBack).symm
  rw [reported] at inFront inBack ⊢
  rw [List.filterMap_append, List.filter_append, inFront, List.nil_append, List.filterMap_cons]
  cases found : t.diagnostic? text with
  | none => exact inBack
  | some d =>
      have here := (diagnostic?_eq_some_iff.mp found).2
      simp [here, inBack]

end Token

/-- What is reported at a token of a cut is its own diagnostic. -/
theorem Cut.reported_eq {text last : List UInt8} {pieces : List Piece} (cut : Cut text pieces last)
    (known : Interner) {t : Token} (member : t ∈ Piece.tokens .start known pieces last) :
    t.reported (Piece.diagnostics .start pieces) = (t.diagnostic? text).toList := by
  have apart : (Piece.tokens .start known pieces last).Pairwise
      fun t u => t.position ≠ u.position := by
    refine (cut.tiled [] known).pairwise.imp ?_
    intro t u before same
    exact Nat.lt_irrefl _ (same ▸ before.1)
  rw [(cut.reports known).eq_filterMap]
  exact Token.filter_reported apart member

/-- The notes of a cut are the messages of its errors. -/
theorem Cut.notes_eq {text last : List UInt8} {pieces : List Piece} (cut : Cut text pieces last)
    (known : Interner) :
    Token.notes (Piece.tokens .start known pieces last) (Piece.diagnostics .start pieces) =
      (pieces.map Piece.error ++ [none]).map fun e => (Option.map LexicalError.message e).toList := by
  have stand : List.Forall₂ (Token.Stands text) (Piece.tokens .start known pieces last)
      (pieces.map Piece.error ++ [none]) := cut.forall₂_stands [] known
  have own : ∀ t ∈ Piece.tokens .start known pieces last,
      (t.reported (Piece.diagnostics .start pieces)).map Diagnostic.message =
        (t.fault? text).toList := by
    intro t member
    rw [cut.reported_eq known member, Token.diagnostic?]
    cases t.fault? text <;> rfl
  unfold Token.reported at own
  rw [Token.notes, List.map_congr_left own, ← List.forall₂_eq_eq_eq, List.forall₂_map_left_iff,
    List.forall₂_map_right_iff]
  exact stand.imp fun t e stands => by rw [stands.fault?_eq]

/-! ## Runs -/

theorem Source.readsLike_of_respaced {source respaced : Source} {known : Interner}
    (spaced : Respaced (source.spans known) respaced.bytes) :
    respaced.ReadsLike source known := by
  obtain ⟨pieces, last, cut, _⟩ := source.lex_of_cut Backlog.empty known
  rw [spans_eq cut] at spaced
  obtain ⟨pieces', last', cut', alike⟩ := cut.respaced spaced
  have run := lex_eq_of_cut cut Backlog.empty known
  have run' := lex_eq_of_cut cut' Backlog.empty known
  refine ⟨?_, ?_, ?_, ?_⟩
  · rw [run, run']
    exact Piece.map_content_tokens alike _ _ _ _ known
  · rw [run, run', Backlog.toList_emitAll, Backlog.toList_emitAll]
    exact Piece.map_message_diagnostics alike _ _
  · rw [run, run', Backlog.toList_emitAll, Backlog.toList_emitAll]
    show Token.notes _ (Piece.diagnostics .start pieces') =
      Token.notes _ (Piece.diagnostics .start pieces)
    rw [cut.notes_eq, cut'.notes_eq, Piece.map_error alike]
  · rw [run, run']
    exact Piece.names_congr alike known

/-- Every span on a line of its own is one way to write them. -/
theorem Respaced.own_lines (spans : List (List UInt8)) :
    Respaced spans (spans.flatMap (· ++ [Byte.lineFeed])) := by
  have newLine : ∀ spans : List (List UInt8),
      Respaced spans (Byte.lineFeed :: spans.flatMap (· ++ [Byte.lineFeed])) := by
    intro spans
    induction spans with
    | nil => exact .last (.white (by decide) .nil)
    | cons span spans ih =>
        have spaced : Respaced (span :: spans) ([Byte.lineFeed] ++ (span ++ Byte.lineFeed ::
            spans.flatMap (· ++ [Byte.lineFeed]))) :=
          .token (.white (by decide) .nil) rfl ih
        simpa using spaced
  cases spans with
  | nil => exact .last .nil
  | cons span spans =>
      have spaced : Respaced (span :: spans) ([] ++ (span ++ Byte.lineFeed ::
          spans.flatMap (· ++ [Byte.lineFeed]))) :=
        .token .nil rfl (newLine spans)
      simpa using spaced

/-- **Tokens read the same whatever trivia stand between them**, as long as each is
followed by a line feed; in particular when each is on a line of its own. -/
theorem Source.respaced_readsLike (source : Source) (known : Interner) :
    (∀ respaced : Source, Respaced (source.spans known) respaced.bytes →
      respaced.ReadsLike source known) ∧
    (∀ lines : Source, lines.bytes = (source.spans known).flatMap (· ++ [Byte.lineFeed]) →
      lines.ReadsLike source known) := by
  refine ⟨fun respaced spaced => readsLike_of_respaced spaced, ?_⟩
  intro lines onLines
  exact readsLike_of_respaced (onLines ▸ Respaced.own_lines (source.spans known))

/-- A name, an unknown byte and a string that is never closed, without and with
comments between them. -/
theorem Source.respaced_readsLike_unclosed :
    let source := Source.padded "dense" [0x61, 0x3F, 0x22, 0x62] (by decide)
    let respaced := Source.padded "respaced" [0x23, 0x0A, 0x61, 0x0A, 0x09, 0x3F, 0x0A, 0x23, 0x22,
      0x0A, 0x22, 0x62, 0x0A, 0x23] (by decide)
    let lines := Source.padded "lines" [0x61, 0x0A, 0x3F, 0x0A, 0x22, 0x62, 0x0A] (by decide)
    Respaced (source.spans .empty) respaced.bytes ∧ respaced.ReadsLike source .empty ∧
      lines.bytes = (source.spans .empty).flatMap (· ++ [Byte.lineFeed]) ∧
      lines.ReadsLike source .empty := by
  intro source respaced lines
  have spans : source.spans .empty = [[0x61], [0x3F], [0x22, 0x62]] := by decide +kernel
  have spaced : Respaced (source.spans .empty) respaced.bytes := by
    rw [spans, show respaced.bytes = _ from Source.bytes_padded _ _ _]
    have ending : Trivia true [0x0A, 0x23] :=
      .white (by decide) (.lastComment rfl List.not_mem_nil)
    have comment : Trivia false [0x0A, 0x23, 0x22, 0x0A] :=
      .white (by decide) (@Trivia.comment false [0x22] [] (by decide) (.white (by decide) .nil))
    have blank : Trivia false [0x0A, 0x09] := .white (by decide) (.white (by decide) .nil)
    have opening : Trivia false [0x23, 0x0A] :=
      @Trivia.comment false [] [] (by decide) (.white (by decide) .nil)
    exact .token opening rfl (.token blank rfl (.token comment rfl (.last ending)))
  have onLines : lines.bytes = (source.spans .empty).flatMap (· ++ [Byte.lineFeed]) := by
    rw [spans, show lines.bytes = _ from Source.bytes_padded _ _ _]
    rfl
  obtain ⟨reads, readsLines⟩ := source.respaced_readsLike .empty
  exact ⟨spaced, reads respaced spaced, onLines, readsLines lines onLines⟩

end Lexis
