/-
# Lexis.Proofs.Tiling -- tokens and the gaps between them give back the text

The spans of the tokens of a source are disjoint and in order, and what is
between them is trivia: `Tiles` says so of a list of tokens and a text, and
`tokens_tile` of every run.  Nothing is read twice, nothing is lost, and the end
token comes once and last.

`Tiled text start tokens` is the same from an index on; a cut gives it piece by
piece (`Cut.tiled`), and each part of `Tiles` follows by induction on it.
-/
import Lexis.Proofs.Pieces
import Mathlib.Data.List.Basic

namespace Lexis

set_option autoImplicit false

/-- What is before each token, back to the end of the one before it. -/
def Token.gaps (text : List UInt8) (start : Nat) : List Token → List (List UInt8)
  | [] => []
  | t :: tokens =>
      (text.drop start).take (t.position.offset - start) :: gaps text t.stop tokens

structure Tiles (text : List UInt8) (tokens : List Token) : Prop where
  increasing : tokens.Pairwise fun t u =>
    t.position.offset < u.position.offset ∧ t.stop ≤ u.position.offset
  inside : ∀ t ∈ tokens, t.stop ≤ text.length
  nonempty : ∀ t ∈ tokens, t.isEof = false → 1 ≤ t.length
  oneLine : ∀ t ∈ tokens, Byte.lineFeed ∉ t.span text
  /-- The end comes once, at the end of the text and after all other tokens. -/
  ended : ∃ front position, tokens = front ++ [.eof position] ∧
    position.offset = text.length ∧ ∀ t ∈ front, t.isEof = false
  count : tokens.length ≤ text.length + 1
  atToken : ∀ t ∈ tokens, ∀ b ∈ text[t.position.offset]?,
    b ∉ Byte.whitespace ∧ b ≠ Byte.hash
  /-- Only the gap before the end may end in a comment without a line feed. -/
  trivia : ∀ gap t, (gap, t) ∈ (Token.gaps text 0 tokens).zip tokens → Trivia t.isEof gap
  rebuilt :
    (List.zipWith (fun gap t => gap ++ t.span text) (Token.gaps text 0 tokens) tokens).flatten =
      text

/-! ## From an index on -/

inductive Tiled (text : List UInt8) : Nat → List Token → Prop
  | eof {start : Nat} {position : Position} (inside : start ≤ text.length)
      (ended : position.offset = text.length) (trivia : Trivia true (text.drop start)) :
      Tiled text start [.eof position]
  | token {start : Nat} {t : Token} {tokens : List Token} (after : start ≤ t.position.offset)
      (notEof : t.isEof = false) (nonempty : 1 ≤ t.length) (inside : t.stop ≤ text.length)
      (oneLine : Byte.lineFeed ∉ t.span text)
      (atToken : ∀ b ∈ text[t.position.offset]?, Byte.startsTrivia b = false)
      (trivia : Trivia false ((text.drop start).take (t.position.offset - start)))
      (more : Tiled text t.stop tokens) : Tiled text start (t :: tokens)

/-- A cut tiles what it is a cut of, wherever in a text that stands. -/
theorem Cut.tiled {ahead : List UInt8} {pieces : List Piece} {last : List UInt8}
    (cut : Cut ahead pieces last) (before : List UInt8) (known : Interner) :
    Tiled (before ++ ahead) before.length
      (Piece.tokens (Position.start.stepOverAll before) known pieces last) := by
  induction cut generalizing before known with
  | done trivia =>
      refine .eof (by simp) ?_ ?_
      · rw [← Position.stepOverAll_append, Position.offset_stepOverAll_start]
      · rwa [List.drop_left]
  | @piece p rest pieces last trivia atToken spelled more ih =>
      have further := ih (before ++ p.gap ++ p.spelling) (p.lexeme.content known).2
      have split : before ++ (p.gap ++ (p.spelling ++ rest)) =
          (before ++ p.gap) ++ (p.spelling ++ rest) := (List.append_assoc _ _ _).symm
      rw [List.append_assoc, ← split] at further
      generalize before ++ (p.gap ++ (p.spelling ++ rest)) = text at split further ⊢
      let t := p.token (Position.start.stepOverAll before) known
      have offset : t.position.offset = (before ++ p.gap).length := by
        rw [← Position.offset_stepOverAll_start, Position.stepOverAll_append]
        rfl
      have stop : t.stop = (before ++ p.gap ++ p.spelling).length := by
        show t.position.offset + p.spelling.length = _
        rw [offset, ← List.length_append]
      have ahead := Token.drop_eq split offset
      refine .token (t := t) ?_ (p.isEof_token _ _) ?_ ?_ ?_ ?_ ?_ ?_
      · rw [offset, List.length_append]
        exact Nat.le_add_right _ _
      · exact List.length_pos_iff.mpr spelled.spelling_ne_nil
      · rw [stop, split]
        simp only [List.length_append]
        omega
      · rw [Token.span_eq split offset rfl]
        exact spelled.lineFeed_notMem atToken
      · intro b first
        rw [← List.head?_drop, ahead,
          List.head?_append_of_ne_nil _ spelled.spelling_ne_nil] at first
        exact atToken b first
      · rw [offset, split, List.append_assoc, List.drop_left, List.length_append,
          Nat.add_sub_cancel_left, List.take_left]
        exact trivia
      · rw [stop]
        rw [Position.stepOverAll_append, Position.stepOverAll_append] at further
        exact further

/-! ## What tiling means -/

namespace Tiled

variable {text : List UInt8} {start : Nat} {tokens : List Token}

theorem start_le_offset (tiled : Tiled text start tokens) :
    ∀ t ∈ tokens, start ≤ t.position.offset := by
  induction tiled with
  | eof inside ended =>
      intro t member
      rw [List.mem_singleton.mp member]
      exact ended ▸ inside
  | @token start first _ after notEof nonempty _ _ _ _ more ih =>
      intro t member
      rcases List.mem_cons.mp member with rfl | later
      · exact after
      · exact (after.trans (Nat.le_add_right _ _)).trans (ih t later)

theorem pairwise (tiled : Tiled text start tokens) :
    tokens.Pairwise fun t u =>
      t.position.offset < u.position.offset ∧ t.stop ≤ u.position.offset := by
  induction tiled with
  | eof => exact List.pairwise_singleton _ _
  | @token start t _ _ _ nonempty _ _ _ _ more ih =>
      refine List.pairwise_cons.mpr ⟨?_, ih⟩
      intro u later
      have apart := more.start_le_offset u later
      refine ⟨?_, apart⟩
      unfold Token.stop at apart
      omega

theorem stop_le (tiled : Tiled text start tokens) : ∀ t ∈ tokens, t.stop ≤ text.length := by
  induction tiled with
  | eof _ ended =>
      intro t member
      rw [List.mem_singleton.mp member]
      exact Nat.le_of_eq ended
  | token _ _ _ inside _ _ _ _ ih => exact List.forall_mem_cons.mpr ⟨inside, ih⟩

theorem one_le_length (tiled : Tiled text start tokens) :
    ∀ t ∈ tokens, t.isEof = false → 1 ≤ t.length := by
  induction tiled with
  | eof =>
      intro t member notEof
      rw [List.mem_singleton.mp member] at notEof
      exact absurd notEof (by simp [Token.eof, Token.isEof, Token.kind, Content.kind])
  | token _ _ nonempty _ _ _ _ _ ih => exact List.forall_mem_cons.mpr ⟨fun _ => nonempty, ih⟩

theorem lineFeed_notMem_span (tiled : Tiled text start tokens) :
    ∀ t ∈ tokens, Byte.lineFeed ∉ t.span text := by
  induction tiled with
  | eof =>
      intro t member
      rw [List.mem_singleton.mp member]
      exact List.not_mem_nil
  | token _ _ _ _ oneLine _ _ _ ih => exact List.forall_mem_cons.mpr ⟨oneLine, ih⟩

theorem ends_in_eof (tiled : Tiled text start tokens) :
    ∃ front position, tokens = front ++ [.eof position] ∧
      position.offset = text.length ∧ ∀ t ∈ front, t.isEof = false := by
  induction tiled with
  | @eof start position inside ended =>
      exact ⟨[], position, rfl, ended, fun _ member => absurd member List.not_mem_nil⟩
  | @token start t tokens after notEof _ _ _ _ _ more ih =>
      obtain ⟨front, position, same, ended, others⟩ := ih
      refine ⟨t :: front, position, ?_, ended, List.forall_mem_cons.mpr ⟨notEof, others⟩⟩
      rw [same, List.cons_append]

theorem length_le (tiled : Tiled text start tokens) :
    tokens.length + start ≤ text.length + 1 := by
  induction tiled with
  | eof inside =>
      rw [List.length_singleton]
      omega
  | token after _ nonempty _ _ _ _ _ ih =>
      unfold Token.stop at ih
      rw [List.length_cons]
      omega

theorem startsTrivia_eq_false (tiled : Tiled text start tokens) :
    ∀ t ∈ tokens, ∀ b ∈ text[t.position.offset]?, Byte.startsTrivia b = false := by
  induction tiled with
  | eof _ ended =>
      intro t member b there
      rw [List.mem_singleton.mp member, Token.eof, ended] at there
      simp at there
  | token _ _ _ _ _ atToken _ _ ih => exact List.forall_mem_cons.mpr ⟨atToken, ih⟩

theorem trivia_of_mem_zip (tiled : Tiled text start tokens) :
    ∀ gap t, (gap, t) ∈ (Token.gaps text start tokens).zip tokens → Trivia t.isEof gap := by
  induction tiled with
  | @eof start position inside ended trivia =>
      intro gap t member
      have only := List.mem_singleton.mp member
      obtain ⟨rfl, rfl⟩ := Prod.mk.inj only
      rw [Token.eof, ended, List.take_of_length_le (by rw [List.length_drop])]
      exact trivia
  | token _ notEof _ _ _ _ trivia _ ih =>
      intro gap t member
      rcases List.mem_cons.mp member with first | later
      · obtain ⟨rfl, rfl⟩ := Prod.mk.inj first
        exact notEof ▸ trivia
      · exact ih gap t later

theorem rebuilt (tiled : Tiled text start tokens) :
    (List.zipWith (fun gap t => gap ++ t.span text) (Token.gaps text start tokens)
      tokens).flatten = text.drop start := by
  induction tiled with
  | @eof start position inside ended trivia =>
      have gap : (text.drop start).take (text.length - start) = text.drop start :=
        List.take_of_length_le (by rw [List.length_drop])
      simp [Token.gaps, Token.eof, Token.span, ended, gap]
  | @token start t tokens after _ _ _ _ _ _ _ ih =>
      have gap := List.take_append_drop (t.position.offset - start) (text.drop start)
      have span := List.take_append_drop t.length (text.drop t.position.offset)
      rw [List.drop_drop, Nat.add_sub_cancel' after] at gap
      rw [List.drop_drop] at span
      rw [Token.gaps, List.zipWith_cons_cons, List.flatten_cons, ih, List.append_assoc]
      rw [Token.stop, Token.span, span, gap]

end Tiled

theorem Tiled.tiles {text : List UInt8} {tokens : List Token} (tiled : Tiled text 0 tokens) :
    Tiles text tokens where
  increasing := tiled.pairwise
  inside := tiled.stop_le
  nonempty := tiled.one_le_length
  oneLine := tiled.lineFeed_notMem_span
  ended := tiled.ends_in_eof
  count := tiled.length_le
  atToken := fun t member b there =>
    Byte.startsTrivia_eq_false_iff.mp (tiled.startsTrivia_eq_false t member b there)
  trivia := tiled.trivia_of_mem_zip
  rebuilt := tiled.rebuilt

/-- **The tokens of a source tile its text**, for every sink and every names. -/
theorem Source.tokens_tile {σ : Type} [Sink σ] (source : Source) (sink : σ) (known : Interner) :
    Tiles source.bytes (source.lex sink known).1.tokens := by
  obtain ⟨pieces, last, cut, run⟩ := source.lex_of_cut sink known
  rw [run]
  exact (cut.tiled [] known).tiles

end Lexis
