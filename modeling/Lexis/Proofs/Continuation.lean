/-
# Lexis.Proofs.Continuation -- two bytes behind a token settle it

A text may go on.  What is appended can only change tokens with fewer than two bytes
behind them: every other token stands among the tokens of the longer text at the same
index, with the same content, position and length, and the same is reported there.

The reason is that no lexeme looks further than two bytes behind itself
(`of_take_two`).  So the pieces of a cut, up to a token that is settled, begin every
cut of the longer text (`Cut.settled`).
-/
import Lexis.Proofs.Respacing

namespace Lexis

set_option autoImplicit false

namespace Token

/-- Only the byte at a token matters to its fault, so a text may go on behind it. -/
theorem diagnostic?_append {t : Token} {text : List UInt8}
    (inside : t.position.offset < text.length) (more : List UInt8) :
    t.diagnostic? (text ++ more) = t.diagnostic? text := by
  have same : (text ++ more).getD t.position.offset 0 = text.getD t.position.offset 0 := by
    rw [List.getD_eq_getElem?_getD, List.getD_eq_getElem?_getD, List.getElem?_append_left inside]
  unfold diagnostic? fault?
  rw [same]

end Token

namespace Cut

variable {text ahead last last' more : List UInt8} {pieces pieces' : List Piece}

/-- No token of a cut stops before the first one does. -/
theorem le_stop_of_mem {p : Piece} (cut : Cut text (p :: pieces) last) (before : List UInt8)
    (known : Interner) {t : Token}
    (member : t ∈ Piece.tokens (Position.start.stepOverAll before) known (p :: pieces) last) :
    (before ++ p.gap ++ p.spelling).length ≤ t.stop := by
  have first : (p.token (Position.start.stepOverAll before) known).stop =
      (before ++ p.gap ++ p.spelling).length := by
    rw [List.length_append, ← Position.offset_stepOverAll_start, Position.stepOverAll_append]
    rfl
  rw [← first]
  rcases List.mem_cons.mp member with rfl | later
  · exact Nat.le_refl _
  · have tiled := cut.tiled before known
    have apart := ((List.pairwise_cons.mp tiled.pairwise).1 t later).2
    exact apart.trans (Nat.le_add_right _ _)

/-- A token with two bytes behind it is a token of every cut of a longer text, at the
same index. -/
theorem settled (cut : Cut ahead pieces last) (longer : Cut (ahead ++ more) pieces' last')
    (before : List UInt8) (known : Interner) {i : Nat} {t : Token}
    (there : (Piece.tokens (Position.start.stepOverAll before) known pieces last)[i]? = some t)
    (behind : t.stop + 2 ≤ (before ++ ahead).length) :
    (Piece.tokens (Position.start.stepOverAll before) known pieces' last')[i]? = some t := by
  induction cut generalizing before known i pieces' with
  | @done gap trivia =>
      -- Nothing stands behind the end token, the only one.
      have isEof := List.mem_singleton.mp (List.mem_of_getElem? there)
      have atEnd : t.stop = (before ++ gap).length := by
        rw [isEof, ← Position.stepOverAll_append]
        exact Position.offset_stepOverAll_start _
      omega
  | @piece p rest pieces last trivia atToken spelled cut ih =>
      have split : before ++ (p.gap ++ (p.spelling ++ rest)) =
          before ++ p.gap ++ p.spelling ++ rest := by simp only [List.append_assoc]
      have reach := (Cut.piece trivia atToken spelled cut).le_stop_of_mem before known
        (List.mem_of_getElem? there)
      have twoBehind : 2 ≤ rest.length := by
        rw [split, List.length_append] at behind
        omega
      have placed : p.lexeme.Spelled p.error p.spelling (rest ++ more) :=
        spelled.of_take_two (List.take_append_of_le_length twoBehind).symm
      rw [List.append_assoc, List.append_assoc] at longer
      obtain ⟨further, rfl, ahead⟩ := piece_inv trivia atToken placed longer
      cases i with
      | zero => exact there
      | succ i =>
          have next := ih (i := i) ahead (before ++ p.gap ++ p.spelling) (p.lexeme.content known).2
          rw [Position.stepOverAll_append, Position.stepOverAll_append] at next
          exact next there (split ▸ behind)

end Cut

/-! ## Runs -/

/-- **Two bytes behind a token settle it**: whatever a text goes on with, the token keeps
its index and stays as it is, and so does what is reported about it. -/
theorem Source.settled_of_append (source longer : Source) (more : List UInt8)
    (goesOn : longer.bytes = source.bytes ++ more) (known : Interner) :
    let short := source.lex Backlog.empty known
    let long := longer.lex Backlog.empty known
    ∀ (i : Nat) (t : Token), short.1.tokens[i]? = some t → t.stop + 2 ≤ source.length →
      long.1.tokens[i]? = some t ∧
        t.reported long.2.1.toList = t.reported short.2.1.toList := by
  intro short long i t there behind
  obtain ⟨pieces, last, cut, run⟩ := source.lex_of_cut Backlog.empty known
  obtain ⟨pieces', last', cut', run'⟩ := longer.lex_of_cut Backlog.empty known
  rw [show short = _ from run] at there ⊢
  rw [show long = _ from run', Backlog.toList_emitAll, Backlog.toList_emitAll]
  rw [goesOn] at cut'
  rw [← source.length_bytes] at behind
  have stays := cut.settled cut' [] known there behind
  have inside : t.position.offset < source.bytes.length := by
    unfold Token.stop at behind
    omega
  refine ⟨stays, ?_⟩
  rw [show Backlog.empty.toList = [] from rfl, List.nil_append, List.nil_append,
    cut'.reported_eq known (List.mem_of_getElem? stays),
    cut.reported_eq known (List.mem_of_getElem? there), Token.diagnostic?_append inside]

/-- An unknown byte with two bytes behind it, and a number that is not settled: its point
may turn out to have digits behind it. -/
theorem Source.settled_of_append_point :
    let source := Source.padded "short" [0x3F, 0x31, 0x2E] (by decide)
    let longer := Source.padded "long" [0x3F, 0x31, 0x2E, 0x35] (by decide)
    let short := source.lex Backlog.empty .empty
    let long := longer.lex Backlog.empty .empty
    let t : Token := ⟨.unknown, .start, 1⟩
    longer.bytes = source.bytes ++ [0x35] ∧ short.1.tokens[0]? = some t ∧
      t.stop + 2 ≤ source.length ∧ long.1.tokens[0]? = some t ∧
      t.reported long.2.1.toList = t.reported short.2.1.toList ∧
      short.1.tokens[1]? ≠ long.1.tokens[1]? := by
  intro source longer short long t
  have goesOn : longer.bytes = source.bytes ++ [0x35] := by
    rw [show longer.bytes = _ from Source.bytes_padded _ _ _,
      show source.bytes = _ from Source.bytes_padded _ _ _]
    rfl
  have there : short.1.tokens[0]? = some t := by decide +kernel
  have behind : t.stop + 2 ≤ source.length := by decide
  have unsettled : short.1.tokens[1]? ≠ long.1.tokens[1]? := by decide +kernel
  obtain ⟨stays, reported⟩ := source.settled_of_append longer [0x35] goesOn .empty 0 t there behind
  exact ⟨goesOn, there, behind, stays, reported, unsettled⟩

end Lexis
