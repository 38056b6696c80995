/-
# Lexis.Proofs.Pieces -- a text cut into lexemes, and what scanning makes of the cut

A piece of a text is a lexeme with the gap before it.  `Cut text pieces last` says
how a text is cut: gap and lexeme in turn, and trivia after the last lexeme.  The
cut knows nothing of positions, names or reports.  These are read off it, piece
by piece: `Piece.tokens`, `Piece.diagnostics` and `Piece.names`.

`next_next` says once what a call of `next` can do, and `lex_of_cut` what a whole
run does: there is a cut of the source such that its tokens, its diagnostics and
its names are those of the run.  `stands_of_mem_tokens` is the view of a single
token, with the text before it and behind it.
-/
import Lexis.Proofs.Spelling
import Mathlib.Data.List.Forall2

namespace Lexis

set_option autoImplicit false

structure Piece where
  gap : List UInt8
  spelling : List UInt8
  lexeme : Lexeme
  error : Option LexicalError

inductive Cut : List UInt8 → List Piece → List UInt8 → Prop
  | done {last : List UInt8} (trivia : Trivia true last) : Cut last [] last
  | piece {p : Piece} {rest : List UInt8} {pieces : List Piece} {last : List UInt8}
      (trivia : Trivia false p.gap)
      (atToken : ∀ b ∈ p.spelling.head?, Byte.startsTrivia b = false)
      (spelled : p.lexeme.Spelled p.error p.spelling rest) (more : Cut rest pieces last) :
      Cut (p.gap ++ (p.spelling ++ rest)) (p :: pieces) last

/-! ## What a cut gives -/

namespace Piece

/-- Where the lexeme stands, when the gap starts at `start`. -/
def place (p : Piece) (start : Position) : Position :=
  start.stepOverAll p.gap

/-- Where the next gap starts. -/
def stop (p : Piece) (start : Position) : Position :=
  (p.place start).stepOverAll p.spelling

def token (p : Piece) (start : Position) (known : Interner) : Token :=
  ⟨(p.lexeme.content known).1, p.place start, p.spelling.length⟩

def diagnostic? (p : Piece) (start : Position) : Option Diagnostic :=
  p.error.map fun e => ⟨p.place start, e.message⟩

/-- The tokens of a cut that starts at `start`, the end last. -/
def tokens (start : Position) (known : Interner) : List Piece → List UInt8 → List Token
  | [], last => [.eof (start.stepOverAll last)]
  | p :: pieces, last =>
      p.token start known :: tokens (p.stop start) (p.lexeme.content known).2 pieces last

def diagnostics (start : Position) : List Piece → List Diagnostic
  | [] => []
  | p :: pieces => (p.diagnostic? start).toList ++ diagnostics (p.stop start) pieces

/-- The names known after a cut. -/
def names (known : Interner) (pieces : List Piece) : Interner :=
  pieces.foldl (fun known p => (p.lexeme.content known).2) known

theorem isEof_token (p : Piece) (start : Position) (known : Interner) :
    (p.token start known).isEof = false := by
  rw [← Bool.not_eq_true, Token.isEof_iff]
  exact p.lexeme.content_ne_eof known

end Piece

/-! ## Reports -/

namespace Reporter

variable {σ : Type} [Sink σ]

def reportAll (r : Reporter σ) (ds : List Diagnostic) : Reporter σ :=
  { r with sink := Sink.emitAll r.source ds r.sink, count := r.count + ds.length }

theorem reportAll_nil (r : Reporter σ) : r.reportAll [] = r := rfl

theorem reportAll_append (r : Reporter σ) (front back : List Diagnostic) :
    r.reportAll (front ++ back) = (r.reportAll front).reportAll back := by
  simp only [reportAll, Sink.emitAll_append, List.length_append, Nat.add_assoc]

end Reporter

theorem Scanner.note_eq {σ : Type} [Sink σ] (r : Reporter σ) (p : Piece) (start : Position) :
    note r (p.place start) p.error = r.reportAll (p.diagnostic? start).toList := by
  unfold Piece.diagnostic?
  cases p.error <;> rfl

/-! ## One token -/

namespace Scanner

variable {σ : Type} [Sink σ]

/-- What a call of `next` can do: pass the last trivia and give the end, or pass
one piece and give its token. -/
inductive Next (s : Scanner σ) (known : Interner) : Token × Scanner σ × Interner → Prop
  | eof {gap : List UInt8} {head : Head} (trivia : Trivia true gap)
      (passes : s.head.Passes gap head) (ended : head.cursor.rest = []) :
      Next s known (.eof head.position, { s with head }, known)
  | piece {p : Piece} {head : Head} (trivia : Trivia false p.gap)
      (atToken : ∀ b ∈ p.spelling.head?, Byte.startsTrivia b = false)
      (spelled : p.lexeme.Spelled p.error p.spelling head.cursor.rest)
      (passes : s.head.Passes (p.gap ++ p.spelling) head) :
      Next s known (p.token s.head.position known,
        ⟨head, s.reporter.reportAll (p.diagnostic? s.head.position).toList⟩,
        (p.lexeme.content known).2)

theorem next_next {s : Scanner σ} (step : s.head.InStep) (known : Interner) :
    s.Next known (s.next known) := by
  obtain ⟨gap, trivia, before, atToken⟩ := s.head.skipTrivia_passes step
  unfold next
  dsimp only
  split
  · rename_i ended
    rw [ended] at trivia
    exact .eof trivia before ((Cursor.atEnd_iff _).mp ended)
  · rename_i ahead
    rw [Bool.not_eq_true] at ahead
    rw [ahead] at trivia
    have more : s.head.skipTrivia.cursor.rest ≠ [] := fun nothing =>
      absurd ((Cursor.atEnd_iff _).mpr nothing) (by rw [ahead]; decide)
    obtain ⟨spelling, passes, spelled⟩ := Cursor.reads_read more
    have first : ∀ b ∈ spelling.head?, Byte.startsTrivia b = false := by
      intro b isFirst
      refine atToken b ?_
      rw [passes.rest_eq, List.head?_append, Option.mem_def.mp isFirst]
      rfl
    have moved := Head.passes_moveTo (before.inStep step) passes (spelled.lineFeed_notMem first)
    have length : (s.head.skipTrivia.moveTo s.head.skipTrivia.cursor.read.stop).position.offset -
        s.head.skipTrivia.position.offset = spelling.length := by
      rw [moved.position, Position.offset_stepOverAll]
      exact Nat.add_sub_cancel_left _ _
    rw [length, before.position]
    let p : Piece :=
      ⟨gap, spelling, s.head.skipTrivia.cursor.read.lexeme, s.head.skipTrivia.cursor.read.error⟩
    have noted := note_eq s.reporter p s.head.position
    dsimp only [p, Piece.place] at noted
    rw [noted]
    exact Next.piece (p := p) trivia first spelled (before.trans moved)

/-! ## All tokens -/

/-- Taking all tokens follows a cut of what is ahead, to its end. -/
theorem drain_eq (s : Scanner σ) (known : Interner) (taken : Array Token) (step : s.head.InStep) :
    ∃ pieces last head, Cut s.head.cursor.rest pieces last ∧
      s.head.Passes s.head.cursor.rest head ∧
      s.drain known taken =
        (taken ++ (Piece.tokens s.head.position known pieces last).toArray,
          ⟨head, s.reporter.reportAll (Piece.diagnostics s.head.position pieces)⟩,
          Piece.names known pieces) := by
  -- Every piece shortens what is ahead, so the induction is on its length.
  induction left : s.remaining using Nat.strong_induction_on generalizing s known taken with
  | _ n ih =>
      have can := next_next step known
      generalize outcome : s.next known = result at can
      cases can with
      | @eof gap head trivia passes ended =>
          have ahead : s.head.cursor.rest = gap := by
            rw [passes.cursor.rest_eq, ended, List.append_nil]
          rw [ahead]
          refine ⟨[], gap, head, .done trivia, passes, ?_⟩
          rw [drain, outcome, passes.position]
          simp [Token.eof, Token.isEof, Token.kind, Content.kind, Piece.tokens, Piece.diagnostics,
            Piece.names, Reporter.reportAll_nil]
      | @piece p head trivia atToken spelled passes =>
          have more := p.isEof_token s.head.position known
          have shorter : (s.next known).2.1.remaining < s.remaining :=
            remaining_next_lt (by rw [outcome]; exact more)
          rw [outcome, left] at shorter
          obtain ⟨pieces, last, final, cut, passesRest, drained⟩ :=
            ih _ shorter _ (p.lexeme.content known).2
              (taken.push (p.token s.head.position known)) (passes.inStep step) rfl
          have ahead := passes.cursor.rest_eq
          rw [List.append_assoc] at ahead
          have reached : head.position = p.stop s.head.position := by
            rw [passes.position, Position.stepOverAll_append]
            rfl
          refine ⟨p :: pieces, last, final, ahead ▸ .piece trivia atToken spelled cut, ?_, ?_⟩
          · have whole := passes.trans passesRest
            rwa [List.append_assoc, ← ahead] at whole
          · dsimp only at drained
            rw [drain, outcome, if_neg (by rw [more]; exact Bool.false_ne_true), drained, reached,
              ← Reporter.reportAll_append]
            simp [Piece.tokens, Piece.diagnostics, Piece.names]

end Scanner

/-- A run over a source follows a cut of its text. -/
theorem Source.lex_of_cut {σ : Type} [Sink σ] (source : Source) (sink : σ) (known : Interner) :
    ∃ pieces last, Cut source.bytes pieces last ∧
      source.lex sink known =
        (⟨Piece.tokens .start known pieces last, (Piece.diagnostics .start pieces).length⟩,
          Sink.emitAll source (Piece.diagnostics .start pieces) sink,
          Piece.names known pieces) := by
  obtain ⟨pieces, last, head, cut, passes, drained⟩ :=
    (Scanner.ofSource source sink).drain_eq known #[] (Head.inStep_ofSource source)
  refine ⟨pieces, last, cut, ?_⟩
  simp only [lex, Scanner.all, drained]
  simp [Scanner.errors, Scanner.ofSource, Reporter.ofSource, Reporter.reportAll, Head.ofSource]

/-! ## One token among all -/

/-- The bytes that a token covers. -/
def Token.span (t : Token) (text : List UInt8) : List UInt8 :=
  (text.drop t.position.offset).take t.length

theorem Token.drop_eq {t : Token} {text front ahead : List UInt8} (split : text = front ++ ahead)
    (offset : t.position.offset = front.length) : text.drop t.position.offset = ahead := by
  rw [split, offset]
  exact List.drop_left

theorem Token.span_eq {t : Token} {text front spelling rest : List UInt8}
    (split : text = front ++ (spelling ++ rest)) (offset : t.position.offset = front.length)
    (length : t.length = spelling.length) : t.span text = spelling := by
  rw [span, drop_eq split offset, length]
  exact List.take_left

/-- How a token stands in a text: what is before it, its spelling, and what is
behind it; and what is wrong with it. -/
inductive Token.Stands (text : List UInt8) : Token → Option LexicalError → Prop
  | eof : Stands text (.eof (Position.start.stepOverAll text)) none
  | lexeme {front spelling rest : List UInt8} {l : Lexeme} {e : Option LexicalError}
      {known : Interner} (split : text = front ++ (spelling ++ rest))
      (atToken : ∀ b ∈ spelling.head?, Byte.startsTrivia b = false)
      (spelled : l.Spelled e spelling rest) :
      Stands text ⟨(l.content known).1, Position.start.stepOverAll front, spelling.length⟩ e

/-- The tokens of a cut stand in the text, each with the error of its piece. -/
theorem Cut.forall₂_stands {ahead : List UInt8} {pieces : List Piece} {last : List UInt8}
    (cut : Cut ahead pieces last) (before : List UInt8) (known : Interner) :
    List.Forall₂ (Token.Stands (before ++ ahead))
      (Piece.tokens (Position.start.stepOverAll before) known pieces last)
      (pieces.map Piece.error ++ [none]) := by
  induction cut generalizing before known with
  | done =>
      refine .cons ?_ .nil
      rw [← Position.stepOverAll_append]
      exact .eof
  | @piece p rest pieces last _ atToken spelled _ ih =>
      have further := ih (before ++ p.gap ++ p.spelling) (p.lexeme.content known).2
      rw [Position.stepOverAll_append, Position.stepOverAll_append, List.append_assoc,
        List.append_assoc] at further
      refine .cons ?_ further
      rw [Piece.token, Piece.place, ← Position.stepOverAll_append]
      exact .lexeme (List.append_assoc _ _ _).symm atToken spelled

theorem Cut.stands_of_mem_tokens {text : List UInt8} {pieces : List Piece} {last : List UInt8}
    (cut : Cut text pieces last) (known : Interner) :
    ∀ t ∈ Piece.tokens .start known pieces last, ∃ e, t.Stands text e := by
  have both := (cut.forall₂_stands [] known).imp fun t e stands =>
    And.intro (Exists.intro e stands) stands
  exact ((List.forall₂_and_left _ _).mp both).1

/-- Every token of a run stands in the text. -/
theorem Source.stands_of_mem_lex {σ : Type} [Sink σ] (source : Source) (sink : σ)
    (known : Interner) {t : Token} (member : t ∈ (source.lex sink known).1.tokens) :
    ∃ e, t.Stands source.bytes e := by
  obtain ⟨pieces, last, cut, run⟩ := source.lex_of_cut sink known
  rw [run] at member
  exact cut.stands_of_mem_tokens known t member

end Lexis
