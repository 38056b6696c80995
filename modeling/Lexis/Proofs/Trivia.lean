/-
# Lexis.Proofs.Trivia -- the grammar of what stands between tokens

Trivia are white space (`Byte.whitespace`) and comments, in any order.  A comment is
a sign and the bytes after it on its line, and the line feed that ends it belongs to
the trivia too; only where the text ends after the trivia may the last comment go
without one.  `Trivia atEnd` is this grammar.

`skipTrivia_passes` says that a head passes exactly trivia, and that it stops
before a byte that starts none (`Byte.startsTrivia`).
-/
import Lexis.Proofs.Alphabet
import Lexis.Proofs.Passage
import Mathlib.Data.List.TakeWhile

namespace Lexis

set_option autoImplicit false

namespace Byte

/-- Where a scanner goes on passing trivia. -/
def startsTrivia (b : UInt8) : Bool :=
  isBlank b || b == lineFeed || b == hash

variable {b : UInt8}

theorem startsTrivia_eq_false (notFeed : b ≠ lineFeed) (notBlank : isBlank b ≠ true)
    (notSign : b ≠ hash) : startsTrivia b = false := by
  simp [startsTrivia, notFeed, notBlank, notSign]

theorem startsTrivia_iff : startsTrivia b = true ↔ b ∈ whitespace ∨ b = hash := by
  rw [startsTrivia, Bool.or_eq_true, isBlank_or_lineFeed_iff, beq_iff_eq]

theorem startsTrivia_eq_false_iff : startsTrivia b = false ↔ b ∉ whitespace ∧ b ≠ hash := by
  rw [← Bool.not_eq_true, startsTrivia_iff, not_or]

end Byte

/-- White space and comments; `atEnd` says that nothing follows them. -/
inductive Trivia (atEnd : Bool) : List UInt8 → Prop
  | nil : Trivia atEnd []
  | white {b : UInt8} {gap : List UInt8} (isWhite : b ∈ Byte.whitespace)
      (more : Trivia atEnd gap) : Trivia atEnd (b :: gap)
  /-- The line feed right after a comment is the first byte of further trivia. -/
  | comment {text gap : List UInt8} (oneLine : Byte.lineFeed ∉ text)
      (more : Trivia atEnd (Byte.lineFeed :: gap)) :
      Trivia atEnd (Byte.hash :: text ++ Byte.lineFeed :: gap)
  | lastComment {text : List UInt8} (ended : atEnd = true) (oneLine : Byte.lineFeed ∉ text) :
      Trivia atEnd (Byte.hash :: text)

namespace Trivia

theorem append_blanks {atEnd : Bool} {blanks gap : List UInt8}
    (allBlank : ∀ b ∈ blanks, Byte.isBlank b = true) (more : Trivia atEnd gap) :
    Trivia atEnd (blanks ++ gap) := by
  induction blanks with
  | nil => exact more
  | cons b rest ih =>
      refine .white ?_ (ih fun x hx => allBlank x (List.mem_cons_of_mem b hx))
      rw [← Byte.isBlank_or_lineFeed_iff, allBlank b List.mem_cons_self, Bool.true_or]

/-- A comment goes up to a line feed or to the end, and the trivia after it
start with that line feed, since no token does. -/
theorem comment_append {text ahead gap rest : List UInt8} {atEnd : Bool}
    (oneLine : Byte.lineFeed ∉ text)
    (feed : ∀ b ∈ ahead.head?, b = Byte.lineFeed) (split : ahead = gap ++ rest)
    (more : Trivia atEnd gap) (ended : rest = [] → atEnd = true)
    (stops : ∀ b ∈ rest.head?, Byte.startsTrivia b = false) :
    Trivia atEnd (Byte.hash :: text ++ gap) := by
  cases gap with
  | nil =>
      rw [List.append_nil]
      refine .lastComment (ended ?_) oneLine
      cases rest with
      | nil => rfl
      | cons b tail =>
          have isFeed := feed b (by rw [split]; rfl)
          have notTrivia := stops b rfl
          rw [isFeed] at notTrivia
          exact absurd notTrivia (by decide)
  | cons b gap =>
      have isFeed := feed b (by rw [split]; rfl)
      subst isFeed
      exact .comment oneLine more

end Trivia

/-! ## Skipping -/

/-- The first byte that a `dropWhile` leaves is not of the class. -/
theorem head?_dropWhile {inClass : UInt8 → Bool} {bytes : List UInt8} {b : UInt8}
    (first : b ∈ (bytes.dropWhile inClass).head?) : inClass b = false := by
  have stops := List.head?_dropWhile_not inClass bytes
  rw [Option.mem_def.mp first] at stops
  simpa using stops

theorem lineFeed_notMem_takeWhile (bytes : List UInt8) :
    Byte.lineFeed ∉ bytes.takeWhile (· != Byte.lineFeed) := by
  intro member
  have kept := List.mem_takeWhile_imp member
  simp at kept

namespace Head

/-- What a head stops at after trivia. -/
def AtToken (h : Head) : Prop :=
  ∀ b ∈ h.cursor.rest.head?, Byte.startsTrivia b = false

theorem passes_skipBlanks {h : Head} (step : h.InStep) :
    h.Passes (h.cursor.rest.takeWhile Byte.isBlank)
      (h.moveTo (h.cursor.skipWhile Byte.isBlank)) := by
  refine passes_moveTo step (h.cursor.passes_skipWhile _) ?_
  intro member
  have blank := List.mem_takeWhile_imp member
  rw [Byte.isBlank_lineFeed] at blank
  exact Bool.noConfusion blank

theorem passes_skipLine {h : Head} (step : h.InStep) :
    h.Passes (h.cursor.rest.takeWhile (· != Byte.lineFeed)) (h.moveTo h.cursor.skipLine) :=
  passes_moveTo step (h.cursor.passes_skipTo _) (lineFeed_notMem_takeWhile _)

theorem skipTrivia_passes (h : Head) : h.InStep →
    ∃ gap, Trivia h.skipTrivia.cursor.atEnd gap ∧ h.Passes gap h.skipTrivia ∧
      h.skipTrivia.AtToken := by
  fun_induction skipTrivia h with
  | case1 h feed ih =>
      intro step
      have passed := passes_feedLine feed
      obtain ⟨gap, trivia, passes, atToken⟩ := ih (passed.inStep step)
      exact ⟨_, .white (by decide) trivia, passed.trans passes, atToken⟩
  | case2 h _ _ ih =>
      intro step
      have passed := passes_skipBlanks step
      obtain ⟨gap, trivia, passes, atToken⟩ := ih (passed.inStep step)
      exact ⟨_, trivia.append_blanks fun b => List.mem_takeWhile_imp, passed.trans passes, atToken⟩
  | case3 h _ _ sign ih =>
      intro step
      have passed := passes_skipLine step
      obtain ⟨gap, trivia, passes, atToken⟩ := ih (passed.inStep step)
      refine ⟨_, ?_, passed.trans passes, atToken⟩
      obtain ⟨tail, ahead⟩ := Cursor.rest_eq_cons sign (by decide)
      have signed : h.cursor.rest.takeWhile (· != Byte.lineFeed) =
          Byte.hash :: tail.takeWhile (· != Byte.lineFeed) := by
        rw [ahead]
        rfl
      rw [signed]
      refine Trivia.comment_append (lineFeed_notMem_takeWhile tail) ?_ passes.cursor.rest_eq trivia
        (Cursor.atEnd_iff _).mpr atToken
      intro b first
      rw [moveTo, Cursor.rest_skipLine] at first
      simpa using head?_dropWhile first
  | case4 h notFeed notBlank notSign =>
      intro step
      refine ⟨[], .nil, .refl h, ?_⟩
      intro b first
      have here : h.cursor.current = b := by
        rw [Cursor.current_eq, List.headD_eq_head?_getD, Option.mem_def.mp first]
        rfl
      rw [here] at notFeed notBlank notSign
      exact Byte.startsTrivia_eq_false notFeed notBlank notSign

end Head

end Lexis
