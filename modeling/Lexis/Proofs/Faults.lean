/-
# Lexis.Proofs.Faults -- the tokens that are errors

A token is faulty when it is an unknown byte, or a string or a char literal that is not
closed (`Token.IsFaulty`).  This is read off the token and the text alone.  The errors
that a run counts are the faulty tokens (`errors_eq_faults`), and so a source has errors
exactly when one of its tokens is faulty (`faults_pos_iff`).
-/
import Lexis.Proofs.Reports

namespace Lexis

set_option autoImplicit false

namespace Token

/-- An unknown byte, or a string or a char literal that is not closed. -/
def IsFaulty (t : Token) (text : List UInt8) : Prop :=
  t.kind = .unknown ∨ (t.kind = .literal .string ∧ ¬ t.IsClosedString text) ∨
    (t.kind = .literal .char ∧ ¬ t.IsClosedChar text)

theorem isClosedChar_iff_take (t : Token) (text : List UInt8) :
    t.IsClosedChar text ↔ ((t.afterFirst text).take 2).head? ≠ some Byte.lineFeed ∧
      ((t.afterFirst text).take 2)[1]? = some Byte.apostrophe := by
  unfold IsClosedChar
  rcases t.afterFirst text with _ | ⟨b, _ | ⟨c, tail⟩⟩
  · simp
  · simp
  · simp [Eq.comm]

instance (t : Token) (text : List UInt8) : Decidable (t.IsClosedString text) :=
  inferInstanceAs (Decidable (_ = _))

instance (t : Token) (text : List UInt8) : Decidable (t.IsClosedChar text) :=
  decidable_of_iff _ (t.isClosedChar_iff_take text).symm

instance (t : Token) (text : List UInt8) : Decidable (t.IsFaulty text) :=
  inferInstanceAs (Decidable (_ ∨ _ ∨ _))

/-- A token is faulty exactly when something was found wrong with it. -/
theorem Stands.isFaulty_iff {text : List UInt8} {t : Token} {e : Option LexicalError}
    (stands : t.Stands text e) : t.IsFaulty text ↔ e ≠ none := by
  unfold IsFaulty
  by_cases isString : t.kind = .literal .string
  · simp [isString, stands.isClosedString_iff isString]
  by_cases isChar : t.kind = .literal .char
  · simp [isChar, stands.isClosedChar_iff isChar]
  -- Of the other tokens only an unknown byte has an error.
  simp only [isString, isChar, false_and, or_false]
  cases stands with
  | eof => exact iff_of_false Kind.noConfusion (fun wrong => wrong rfl)
  | lexeme _ _ spelled =>
      cases spelled with
      | int32 | float64 | mark => exact iff_of_false Kind.noConfusion (fun wrong => wrong rfl)
      | word =>
          refine iff_of_false ?_ (fun wrong => wrong rfl)
          unfold Token.kind Lexeme.content
          dsimp only
          split <;> exact Kind.noConfusion
      | string | openString => exact absurd rfl isString
      | char | openChar | emptyChar => exact absurd rfl isChar
      | unknown => exact iff_of_true rfl (Option.some_ne_none _)

end Token

theorem Cut.length_diagnostics {text last : List UInt8} {pieces : List Piece}
    (cut : Cut text pieces last) (known : Interner) :
    (Piece.diagnostics .start pieces).length =
      (Piece.tokens .start known pieces last).countP fun t => t.IsFaulty text := by
  rw [(cut.reports known).eq_filterMap, List.length_filterMap_eq_countP]
  apply List.countP_congr
  intro t member
  obtain ⟨e, stands⟩ := cut.stands_of_mem_tokens known t member
  rw [decide_eq_true_iff, stands.isFaulty_iff, Option.isSome_iff_ne_none]
  exact not_congr stands.diagnostic?_eq_none_iff

namespace Source

/-- The tokens of a source that is lexed alone. -/
def tokens (source : Source) : List Token :=
  (source.lex Backlog.empty .empty).1.tokens

/-- How many tokens are faulty. -/
def faults (source : Source) : Nat :=
  source.tokens.countP fun t => t.IsFaulty source.bytes

def totalFaults : List Source → Nat
  | [] => 0
  | source :: rest => source.faults + totalFaults rest

theorem errors_eq_faults (source : Source) :
    (source.lex Backlog.empty .empty).1.errors = source.faults := by
  obtain ⟨pieces, last, cut, run⟩ := source.lex_of_cut Backlog.empty .empty
  unfold faults tokens
  rw [run]
  exact cut.length_diagnostics .empty

theorem faults_pos_iff (source : Source) :
    0 < source.faults ↔ ∃ t ∈ source.tokens, t.IsFaulty source.bytes := by
  simp [faults, List.countP_pos_iff]

end Source

end Lexis
