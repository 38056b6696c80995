/-
# Lexis.Proofs.LineByLine -- whole lines are read by themselves

A text that is empty or ends with a line feed consists of whole lines
(`EndsLine`).  No lexeme, no comment and no error goes on over its end: what stands
behind it changes nothing in it (`Spelled.append_of_endsLine`), and what stands before
it changes only positions.  So a cut of whole lines and a cut of any text make a cut
of both (`Cut.join`): the trivia at the end of the first go on in the first gap of the
second.

Behind whole lines every line number is greater by the line feeds in them, every
offset by their length, and columns are the same (`Position.shift`).  `lex_append`
puts this together for the tokens, the diagnostics, the error counts and the names of
two runs and of the run over both texts.
-/
import Lexis.Proofs.Lookahead
import Lexis.Proofs.Recount

namespace Lexis

set_option autoImplicit false

/-! ## Whole lines -/

/-- The text is empty or ends with a line feed. -/
def EndsLine (text : List UInt8) : Prop :=
  text = [] ∨ text.getLast? = some Byte.lineFeed

namespace EndsLine

theorem of_append {front back : List UInt8} (closed : EndsLine (front ++ back)) :
    EndsLine back := by
  by_cases nothing : back = []
  · exact .inl nothing
  · rcases closed with empty | last
    · exact .inl (List.append_eq_nil_iff.mp empty).2
    · rw [List.getLast?_append_of_ne_nil _ nothing] at last
      exact .inr last

/-- Bytes without a line feed are not the end of whole lines. -/
theorem ne_nil_of_notMem {front back : List UInt8} (closed : EndsLine (front ++ back))
    (some_byte : front ≠ []) (oneLine : Byte.lineFeed ∉ front) : back ≠ [] := by
  rintro rfl
  rw [List.append_nil] at closed
  rcases closed with empty | last
  · exact some_byte empty
  · exact oneLine (List.mem_of_getLast? last)

end EndsLine

namespace Trivia

variable {atEnd : Bool} {gap more : List UInt8}

/-- A comment without a line feed does not end a line. -/
theorem of_endsLine (trivia : Trivia atEnd gap) (closed : EndsLine gap) : Trivia false gap := by
  induction trivia with
  | nil => exact .nil
  | @white b gap isWhite _ ih =>
      have behind : EndsLine ([b] ++ gap) := closed
      exact .white isWhite (ih behind.of_append)
  | comment oneLine _ ih => exact .comment oneLine (ih closed.of_append)
  | @lastComment text _ oneLine =>
      have noFeed : Byte.lineFeed ∉ Byte.hash :: text := by
        intro member
        rcases List.mem_cons.mp member with first | later
        · exact absurd first (by decide)
        · exact oneLine later
      rw [← List.append_nil (Byte.hash :: text)] at closed
      exact absurd rfl (closed.ne_nil_of_notMem (List.cons_ne_nil _ _) noFeed)

theorem append (trivia : Trivia false gap) (next : Trivia atEnd more) :
    Trivia atEnd (gap ++ more) := by
  induction trivia with
  | nil => exact next
  | white isWhite _ ih => exact .white isWhite ih
  | @comment text gap oneLine _ ih =>
      rw [List.append_assoc]
      exact .comment oneLine ih
  | lastComment ended => exact Bool.noConfusion ended

end Trivia

/-- What stands behind whole lines is not seen by the lexemes in them. -/
theorem Lexeme.Spelled.append_of_endsLine {l : Lexeme} {e : Option LexicalError}
    {spelling rest : List UInt8} (spelled : l.Spelled e spelling rest)
    (atToken : ∀ b ∈ spelling.head?, Byte.startsTrivia b = false)
    (closed : EndsLine (spelling ++ rest)) (more : List UInt8) :
    l.Spelled e spelling (rest ++ more) := by
  have some_rest := closed.ne_nil_of_notMem spelled.spelling_ne_nil
    (spelled.lineFeed_notMem atToken)
  -- Two bytes behind the lexeme are enough, and a single one is the line feed.
  rcases closed.of_append with nothing | last
  · exact absurd nothing some_rest
  · match rest, last with
    | [b], last =>
        rw [show b = Byte.lineFeed from Option.some.inj last]
        exact spelled.before_lineFeed more
    | b :: c :: tail, _ => exact spelled.of_take_two rfl

/-! ## Moved positions -/

namespace Position

/-- The position so many lines and bytes further, in the same column. -/
def shift (p : Position) (lines bytes : Nat) : Position :=
  ⟨p.line + lines, p.column, p.offset + bytes⟩

theorem stepOver_shift (p : Position) (lines bytes : Nat) (b : UInt8) :
    (p.shift lines bytes).stepOver b = (p.stepOver b).shift lines bytes := by
  by_cases feed : b = Byte.lineFeed
  · simp [stepOver, shift, feed, Nat.add_right_comm]
  · simp [stepOver, shift, feed, Nat.add_right_comm]

theorem stepOverAll_shift (p : Position) (lines bytes : Nat) (text : List UInt8) :
    (p.shift lines bytes).stepOverAll text = (p.stepOverAll text).shift lines bytes := by
  induction text generalizing p with
  | nil => rfl
  | cons b text ih => rw [stepOverAll_cons, stepOverAll_cons, stepOver_shift, ih]

/-- Behind whole lines a new line starts. -/
theorem stepOverAll_of_endsLine {text : List UInt8} (closed : EndsLine text) :
    start.stepOverAll text = start.shift (text.count Byte.lineFeed) text.length := by
  have column : (start.stepOverAll text).column = 1 := by
    rcases closed with rfl | last
    · rfl
    · obtain ⟨front, rfl⟩ := List.getLast?_eq_some_iff.mp last
      rw [stepOverAll_append]
      rfl
  have line := line_stepOverAll start text
  have offset := offset_stepOverAll start text
  show _ = Position.mk _ _ _
  rw [← line, ← offset, show start.column = _ from column.symm]

end Position

def Token.shift (t : Token) (lines bytes : Nat) : Token :=
  { t with position := t.position.shift lines bytes }

def Diagnostic.shift (d : Diagnostic) (lines bytes : Nat) : Diagnostic :=
  { d with position := d.position.shift lines bytes }

namespace Piece

theorem place_shift (p : Piece) (start : Position) (lines bytes : Nat) :
    p.place (start.shift lines bytes) = (p.place start).shift lines bytes :=
  Position.stepOverAll_shift _ _ _ _

theorem stop_shift (p : Piece) (start : Position) (lines bytes : Nat) :
    p.stop (start.shift lines bytes) = (p.stop start).shift lines bytes := by
  rw [stop, place_shift, Position.stepOverAll_shift, stop]

theorem tokens_shift (pieces : List Piece) (start : Position) (lines bytes : Nat)
    (known : Interner) (last : List UInt8) :
    tokens (start.shift lines bytes) known pieces last =
      (tokens start known pieces last).map fun t => t.shift lines bytes := by
  induction pieces generalizing start known with
  | nil => simp [tokens, Position.stepOverAll_shift, Token.eof, Token.shift]
  | cons p pieces ih => simp [tokens, token, place_shift, stop_shift, ih, Token.shift]

theorem diagnostics_shift (pieces : List Piece) (start : Position) (lines bytes : Nat) :
    diagnostics (start.shift lines bytes) pieces =
      (diagnostics start pieces).map fun d => d.shift lines bytes := by
  induction pieces generalizing start with
  | nil => rfl
  | cons p pieces ih =>
      have here : (p.diagnostic? (start.shift lines bytes)).toList =
          (p.diagnostic? start).toList.map fun d => d.shift lines bytes := by
        rw [diagnostic?, diagnostic?, place_shift]
        cases p.error <;> rfl
      rw [diagnostics, diagnostics, List.map_append, here, stop_shift, ih]

end Piece

/-! ## Joined cuts -/

/-- What is read off a cut is what is read off two others, the second behind the
first, which is a cut of `first`. -/
structure Joined (first : List UInt8) (pieces : List Piece) (last : List UInt8)
    (more : List Piece) (last' : List UInt8) (all : List Piece) (final : List UInt8) : Prop where
  tokens : ∀ start known, Piece.tokens start known all final =
    (Piece.tokens start known pieces last).filter (fun t => !t.isEof) ++
      Piece.tokens (start.stepOverAll first) (Piece.names known pieces) more last'
  diagnostics : ∀ start, Piece.diagnostics start all =
    Piece.diagnostics start pieces ++ Piece.diagnostics (start.stepOverAll first) more
  names : ∀ known, Piece.names known all = Piece.names (Piece.names known pieces) more

/-- Trivia before a cut make its first gap longer. -/
theorem Cut.join_trivia {gap second last : List UInt8} {more : List Piece}
    (trivia : Trivia false gap) (next : Cut second more last) :
    ∃ all final, Cut (gap ++ second) all final ∧ Joined gap [] gap more last all final := by
  cases next with
  | done isTrivia =>
      refine ⟨[], _, .done (trivia.append isTrivia), ?_, fun _ => rfl, fun _ => rfl⟩
      intro start known
      simp only [Piece.tokens, Position.stepOverAll_append]
      rfl
  | @piece p _ pieces _ isTrivia atToken spelled more =>
      let q : Piece := { p with gap := gap ++ p.gap }
      have place (start : Position) : q.place start = p.place (start.stepOverAll gap) :=
        Position.stepOverAll_append _ _ _
      have stop (start : Position) : q.stop start = p.stop (start.stepOverAll gap) := by
        rw [Piece.stop, place, Piece.stop]
      refine ⟨q :: pieces, last, ?_, ?_, ?_, fun _ => rfl⟩
      · rw [← List.append_assoc]
        exact Cut.piece (p := q) (trivia.append isTrivia) atToken spelled more
      · intro start known
        simp only [Piece.tokens, Piece.token, place, stop]
        rfl
      · intro start
        simp only [Piece.diagnostics, Piece.diagnostic?, place, stop]
        rfl

theorem Cut.join {first second last last' : List UInt8} {pieces more : List Piece}
    (cut : Cut first pieces last) (closed : EndsLine first) (next : Cut second more last') :
    ∃ all final, Cut (first ++ second) all final ∧
      Joined first pieces last more last' all final := by
  induction cut with
  | done trivia => exact Cut.join_trivia (trivia.of_endsLine closed) next
  | @piece p rest pieces last trivia atToken spelled _ ih =>
      have behind := closed.of_append
      obtain ⟨all, final, cut, joined⟩ := ih behind.of_append
      have placed := spelled.append_of_endsLine atToken behind second
      have reached (start : Position) : (p.stop start).stepOverAll rest =
          start.stepOverAll (p.gap ++ (p.spelling ++ rest)) := by
        rw [Position.stepOverAll_append, Position.stepOverAll_append]
        rfl
      refine ⟨p :: all, final, ?_, ?_, ?_, ?_⟩
      · rw [List.append_assoc, List.append_assoc]
        exact .piece trivia atToken placed cut
      · intro start known
        rw [Piece.tokens, joined.tokens, reached, Piece.tokens,
          List.filter_cons_of_pos (by rw [p.isEof_token]; rfl)]
        rfl
      · intro start
        rw [Piece.diagnostics, joined.diagnostics, reached, Piece.diagnostics, List.append_assoc]
      · exact fun known => joined.names _

/-! ## Runs -/

/-- **Whole lines are read by themselves**: a run over them and a text behind them is
the run over them and then, with the names known by then, the run over that text, moved
by the lines and the bytes before it. -/
theorem Source.lex_append (first second whole : Source)
    (joined : whole.bytes = first.bytes ++ second.bytes) (closed : EndsLine first.bytes)
    (known : Interner) :
    let one := first.lex Backlog.empty known
    let two := second.lex Backlog.empty one.2.2
    let both := whole.lex Backlog.empty known
    let lines := first.bytes.count Byte.lineFeed
    both.1.tokens = one.1.tokens.filter (fun t => !t.isEof) ++
        two.1.tokens.map (fun t => t.shift lines first.length) ∧
      both.2.1.toList = one.2.1.toList ++
        two.2.1.toList.map (fun d => d.shift lines first.length) ∧
      both.1.errors = one.1.errors + two.1.errors ∧ both.2.2 = two.2.2 := by
  intro one two both lines
  obtain ⟨pieces, last, cut, run⟩ := first.lex_of_cut Backlog.empty known
  obtain ⟨more, last', next, run'⟩ :=
    second.lex_of_cut Backlog.empty (Piece.names known pieces)
  obtain ⟨all, final, cut', reads⟩ := cut.join closed next
  rw [← joined] at cut'
  have runBoth := lex_eq_of_cut cut' Backlog.empty known
  have moved := Position.stepOverAll_of_endsLine closed
  rw [length_bytes] at moved
  have names : one.2.2 = Piece.names known pieces := by rw [show one = _ from run]
  have runTwo : two = second.lex Backlog.empty (Piece.names known pieces) := by rw [← names]
  rw [show both = _ from runBoth, runTwo, run', show one = _ from run]
  refine ⟨?_, ?_, ?_, reads.names known⟩
  · show Piece.tokens _ known all final = _
    rw [reads.tokens, moved, Piece.tokens_shift]
  · rw [Backlog.toList_emitAll, Backlog.toList_emitAll, Backlog.toList_emitAll, reads.diagnostics,
      moved, Piece.diagnostics_shift]
    rfl
  · show (Piece.diagnostics _ all).length = _
    rw [reads.diagnostics, moved, Piece.diagnostics_shift, List.length_append, List.length_map]

/-- A string that the line feed ends and a name with an unknown byte on the next line. -/
theorem Source.lex_append_unclosed :
    let first := Source.padded "first" [0x22, 0x61, 0x0A] (by decide)
    let second := Source.padded "second" [0x61, 0x3F] (by decide)
    let whole := Source.padded "whole" [0x22, 0x61, 0x0A, 0x61, 0x3F] (by decide)
    let one := first.lex Backlog.empty .empty
    let two := second.lex Backlog.empty one.2.2
    let both := whole.lex Backlog.empty .empty
    whole.bytes = first.bytes ++ second.bytes ∧ EndsLine first.bytes ∧
      both.1.tokens = one.1.tokens.filter (fun t => !t.isEof) ++
        two.1.tokens.map (fun t => t.shift 1 3) ∧
      both.2.1.toList = one.2.1.toList ++ two.2.1.toList.map (fun d => d.shift 1 3) ∧
      both.1.errors = one.1.errors + two.1.errors ∧ both.2.2 = two.2.2 := by
  intro first second whole one two both
  have text : first.bytes = [0x22, 0x61, 0x0A] := Source.bytes_padded _ _ _
  have joined : whole.bytes = first.bytes ++ second.bytes := by
    rw [text, show second.bytes = _ from Source.bytes_padded _ _ _,
      show whole.bytes = _ from Source.bytes_padded _ _ _]
    rfl
  have closed : EndsLine first.bytes := .inr (by rw [text]; rfl)
  have feeds : first.bytes.count Byte.lineFeed = 1 := by rw [text]; rfl
  have read := Source.lex_append first second whole joined closed .empty
  dsimp only at read
  rw [feeds] at read
  exact ⟨joined, closed, read⟩

end Lexis
