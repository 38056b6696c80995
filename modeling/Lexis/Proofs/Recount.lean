/-
# Lexis.Proofs.Recount -- positions kept while scanning are those counted afresh

A scanner moves its position over line feeds one by one and over other bytes in
bulk, and never looks back.  `Source.lineColumn` counts line feeds from the start
of the text and searches back for the last of them.  Both agree on every offset
(`lineColumn_eq`), so a position that was stepped over all bytes before it is
exact (`Position.Exact`).

Tokens, diagnostics and the scanner itself only have such positions
(`positions_exact`); the head that a scanner has after some tokens has passed
just the bytes before it (`passes_after`).
-/
import Lexis.Line
import Lexis.Proofs.Reports

namespace Lexis

set_option autoImplicit false

/-- The position is where its offset says, by both ways of counting. -/
structure Position.Exact (p : Position) (source : Source) : Prop where
  lineColumn_eq : (p.line, p.column) = source.lineColumn p.offset
  stepOverAll_eq : p = Position.start.stepOverAll (source.bytes.take p.offset)

/-! ## Counting -/

theorem Position.line_stepOverAll (p : Position) (bytes : List UInt8) :
    (p.stepOverAll bytes).line = p.line + bytes.count Byte.lineFeed := by
  induction bytes generalizing p with
  | nil => rfl
  | cons b rest ih =>
      rw [stepOverAll_cons, ih, List.count_cons]
      by_cases feed : b = Byte.lineFeed
      · simp only [stepOver, feed, beq_self_eq_true, if_true]
        omega
      · simp only [stepOver, if_neg feed, beq_iff_eq]
        omega

namespace Source

theorem take_succ_bytes (s : Source) {i : Nat} (inside : i < s.length) :
    s.bytes.take (i + 1) = s.bytes.take i ++ [s.byte i] := by
  have bound : i < s.bytes.length := by
    rw [length_bytes]
    exact inside
  rw [List.take_succ_eq_append_getElem bound, byte_eq_getD, List.getD_eq_getElem?_getD,
    List.getElem?_eq_getElem bound]
  rfl

/-- The column kept along the way counts from the start of the line. -/
theorem column_eq (s : Source) (offset : Nat) (inside : offset ≤ s.length) :
    (Position.start.stepOverAll (s.bytes.take offset)).column =
      offset - s.lineStart offset + 1 := by
  induction offset with
  | zero => rfl
  | succ i ih =>
      have before := s.lineStart_le i
      rw [s.take_succ_bytes inside, Position.stepOverAll_append, Position.stepOverAll_cons,
        Position.stepOverAll_nil, Position.stepOver, lineStart]
      by_cases feed : s.byte i = Byte.lineFeed
      · rw [if_pos feed, if_pos (beq_iff_eq.mpr feed), Nat.sub_self]
      · rw [if_neg feed, if_neg (mt beq_iff_eq.mp feed)]
        dsimp only
        rw [ih (Nat.le_of_succ_le inside)]
        omega

theorem lineColumn_eq (s : Source) {offset : Nat} (inside : offset ≤ s.length) :
    s.lineColumn offset =
      ((Position.start.stepOverAll (s.bytes.take offset)).line,
        (Position.start.stepOverAll (s.bytes.take offset)).column) := by
  unfold lineColumn
  dsimp only
  rw [Nat.min_eq_left inside, column_eq s offset inside, Position.line_stepOverAll,
    slice_eq s inside, List.drop_zero, Nat.add_comm]
  rfl

/-- A position that was stepped over the text before it is exact. -/
theorem exact_stepOverAll (s : Source) {front rest : List UInt8} (split : s.bytes = front ++ rest) :
    (Position.start.stepOverAll front).Exact s := by
  have before : s.bytes.take front.length = front := by
    rw [split]
    exact List.take_left
  have inside : front.length ≤ s.length := by
    rw [← length_bytes, split, List.length_append]
    exact Nat.le_add_right _ _
  refine ⟨?_, ?_⟩
  · rw [Position.offset_stepOverAll_start, lineColumn_eq s inside, before]
  · rw [Position.offset_stepOverAll_start, before]

end Source

/-! ## Tokens and diagnostics -/

theorem Token.Stands.exact {source : Source} {t : Token} {e : Option LexicalError}
    (stands : t.Stands source.bytes e) : t.position.Exact source := by
  cases stands with
  | eof => exact source.exact_stepOverAll (List.append_nil _).symm
  | lexeme split => exact source.exact_stepOverAll split

theorem Cut.exact_of_mem_diagnostics {source : Source} {pieces : List Piece} {last : List UInt8}
    (cut : Cut source.bytes pieces last) {d : Diagnostic}
    (member : d ∈ Piece.diagnostics .start pieces) : d.position.Exact source := by
  -- A diagnostic is at a token, whatever the names were.
  rw [(cut.reports .empty).eq_filterMap] at member
  obtain ⟨t, inTokens, found⟩ := List.mem_filterMap.mp member
  obtain ⟨e, stands⟩ := cut.stands_of_mem_tokens .empty t inTokens
  rw [(Token.diagnostic?_eq_some_iff.mp found).2]
  exact stands.exact

/-! ## The scanner between two tokens -/

namespace Scanner

variable {σ : Type} [Sink σ]

/-- The scanner and the names after so many tokens. -/
def after (s : Scanner σ) (known : Interner) : Nat → Scanner σ × Interner
  | 0 => (s, known)
  | n + 1 => ((s.after known n).1.next (s.after known n).2).2

theorem passes_next {s : Scanner σ} (step : s.head.InStep) (known : Interner) :
    ∃ passed, s.head.Passes passed (s.next known).2.1.head := by
  have can := next_next step known
  generalize s.next known = result at can ⊢
  cases can with
  | eof _ passes => exact ⟨_, passes⟩
  | piece _ _ _ passes => exact ⟨_, passes⟩

/-- A call of `next` leaves the scanner where its token ends. -/
theorem offset_next {s : Scanner σ} (step : s.head.InStep) (known : Interner) :
    (s.next known).2.1.head.position.offset = (s.next known).1.stop := by
  have can := next_next step known
  generalize s.next known = result at can ⊢
  cases can with
  | eof => rfl
  | @piece p head _ _ _ passes =>
      show head.position.offset =
        (p.token s.head.position known).position.offset + p.spelling.length
      rw [passes.position, Position.stepOverAll_append, Position.offset_stepOverAll]
      rfl

theorem passes_after (source : Source) (sink : σ) (known : Interner) (n : Nat) :
    ∃ front, (Head.ofSource source).Passes front ((ofSource source sink).after known n).1.head := by
  induction n with
  | zero => exact ⟨[], .refl _⟩
  | succ n ih =>
      obtain ⟨front, passes⟩ := ih
      obtain ⟨passed, further⟩ := passes_next (passes.inStep (Head.inStep_ofSource source))
        ((ofSource source sink).after known n).2
      exact ⟨front ++ passed, passes.trans further⟩

end Scanner

theorem Head.Passes.exact {source : Source} {front : List UInt8} {h : Head}
    (passes : (Head.ofSource source).Passes front h) : h.position.Exact source := by
  rw [passes.position]
  exact source.exact_stepOverAll passes.cursor.rest_eq

/-- **Every position is exact**: that of each token, that of each diagnostic, and
that of the scanner after any number of tokens, which is where the last of them
ends. -/
theorem Source.positions_exact {σ : Type} [Sink σ] (source : Source) (sink : σ)
    (known : Interner) :
    (∀ t ∈ (source.lex sink known).1.tokens, t.position.Exact source) ∧
      (∀ d ∈ (source.lex Backlog.empty known).2.1.toList, d.position.Exact source) ∧
      ∀ n, ((Scanner.ofSource source sink).after known n).1.head.position.Exact source ∧
        ((Scanner.ofSource source sink).after known (n + 1)).1.head.position.offset =
          (((Scanner.ofSource source sink).after known n).1.next
            ((Scanner.ofSource source sink).after known n).2).1.stop := by
  refine ⟨?_, ?_, ?_⟩
  · intro t member
    obtain ⟨e, stands⟩ := source.stands_of_mem_lex sink known member
    exact stands.exact
  · intro d member
    obtain ⟨pieces, last, cut, run⟩ := source.lex_of_cut Backlog.empty known
    rw [run, Backlog.toList_emitAll] at member
    exact cut.exact_of_mem_diagnostics member
  · intro n
    obtain ⟨front, passes⟩ := Scanner.passes_after source sink known n
    refine ⟨passes.exact, ?_⟩
    exact Scanner.offset_next (passes.inStep (Head.inStep_ofSource source)) _

/-- A word, and a string on the next line that is never closed. -/
theorem Source.positions_exact_two_lines :
    let source := Source.padded "two lines" [0x69, 0x66, 0x0A, 0x22, 0x61, 0x62] (by decide)
    Position.Exact ⟨2, 4, 6⟩ source ∧ Position.Exact ⟨2, 1, 3⟩ source ∧
      ((Scanner.ofSource source Backlog.empty).after .empty 1).1.head.position.Exact source := by
  intro source
  obtain ⟨tokens, diagnostics, between⟩ := source.positions_exact Backlog.empty .empty
  refine ⟨?_, ?_, (between 1).1⟩
  · exact tokens (.eof ⟨2, 4, 6⟩) (by decide +kernel)
  · exact diagnostics ⟨⟨2, 1, 3⟩, "unterminated string literal"⟩ (by decide +kernel)

end Lexis
