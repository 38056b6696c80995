/-
# Lexis.Proofs.Quoting -- a quoted text can be read back

What stands between the quotes is written character by character: most as they are,
some by a letter behind a backslash, the others by their code point.  `Escapes` lists
the three ways.  They tell the characters apart, whatever follows them
(`Escapes.unique`): the letters differ, and the digits of a code point end at the brace
behind them.

So a quoted text ends at one place and was one text (`quoted_append_inj`).  It is plain,
as every character that does not print is escaped.
-/
import Lexis.Literal
import Lexis.Proofs.PlainText

namespace Lexis.Quoted

set_option autoImplicit false

/-! ## Characters -/

/-- The characters that are written by a letter behind a backslash. -/
def letters : List (Char × Char) :=
  [('\x00', '0'), ('\t', 't'), ('\r', 'r'), ('\n', 'n'), ('"', '"'), ('\\', '\\')]

/-- How a character is written. -/
inductive Escapes (c : Char) : List Char → Prop
  | itself (printable : Printable.isPrintable c = true) (notQuote : c ≠ '"')
      (notBackslash : c ≠ '\\') : Escapes c [c]
  | letter {l : Char} (listed : (c, l) ∈ letters) : Escapes c ['\\', l]
  | codePoint : Escapes c (codePoint c)

theorem escapes_escape (c : Char) : Escapes c (escape c) := by
  unfold escape
  split
  · exact .letter (by simp [letters, *])
  split
  · exact .letter (by simp [letters, *])
  split
  · exact .letter (by simp [letters, *])
  split
  · exact .letter (by simp [letters, *])
  split
  · exact .letter (by simp [letters, *])
  split
  · exact .letter (by simp [letters, *])
  split
  · exact .itself ‹_› ‹_› ‹_›
  · exact .codePoint

theorem codePoint_append_inj {c d : Char} {rest rest' : List Char}
    (same : codePoint c ++ rest = codePoint d ++ rest') : c = d ∧ rest = rest' := by
  have digit {n : Nat} : ∀ b ∈ Nat.toDigits 16 n, (b != '\x7d') = true := by
    intro b member
    have noBrace : ∀ d < 16, (Nat.digitChar d != '\x7d') = true := by decide
    obtain ⟨d, small, rfl⟩ := Digits.exists_of_mem_toDigits (by decide) member
    exact noBrace d small
  have stops (tail : List Char) : ∀ b ∈ ('\x7d' :: tail).head?, (b != '\x7d') = false := by
    intro b first
    rw [← Option.some.inj first]
    rfl
  simp only [codePoint, List.append_assoc, List.append_cancel_left_eq,
    List.singleton_append] at same
  obtain ⟨sameDigits, behind⟩ := append_inj_of_stops digit (stops _) digit (stops _) same
  have sameNumber := Digits.toDigits_injective (by decide) (by decide) sameDigits
  exact ⟨Char.toNat_inj.mp sameNumber, (List.cons.inj behind).2⟩

/-- No two characters are written alike, whatever follows them. -/
theorem Escapes.unique {c d : Char} {written other rest rest' : List Char}
    (escapes : Escapes c written) (also : Escapes d other)
    (same : written ++ rest = other ++ rest') : c = d ∧ rest = rest' := by
  have apart : ∀ x ∈ letters, ∀ y ∈ letters, x.2 = y.2 → x.1 = y.1 := by decide
  have notU : ∀ x ∈ letters, x.2 ≠ 'u' := by decide
  cases escapes with
  | itself _ _ notBackslash =>
      cases also with
      | itself => simpa using same
      | letter | codePoint => exact absurd (List.cons.inj same).1 notBackslash
  | letter listed =>
      cases also with
      | itself _ _ notBackslash => exact absurd (List.cons.inj same).1.symm notBackslash
      | letter listed' =>
          obtain ⟨sameLetter, behind⟩ := List.cons.inj (List.cons.inj same).2
          exact ⟨apart _ listed _ listed' sameLetter, behind⟩
      | codePoint =>
          exact absurd (List.cons.inj (List.cons.inj same).2).1 (notU _ listed)
  | codePoint =>
      cases also with
      | itself _ _ notBackslash => exact absurd (List.cons.inj same).1.symm notBackslash
      | letter listed =>
          exact absurd (List.cons.inj (List.cons.inj same).2).1.symm (notU _ listed)
      | codePoint => exact codePoint_append_inj same

/-- What is written for a character does not begin with a quote. -/
theorem Escapes.not_quote {c : Char} {written rest tail : List Char} (escapes : Escapes c written) :
    written ++ rest ≠ '"' :: tail := by
  intro same
  cases escapes with
  | itself _ notQuote => exact notQuote (List.cons.inj same).1
  | letter | codePoint => exact absurd (List.cons.inj same).1 (by decide)

theorem Escapes.plain {c : Char} {written : List Char} (escapes : Escapes c written) :
    ∀ d ∈ written, 0x20 ≤ d.toNat := by
  cases escapes with
  | itself printable =>
      intro d member
      rw [List.mem_singleton.mp member]
      by_cases ascii : c.toNat < 0x7F
      · exact (Printable.isPrintable_ascii ascii).mp printable
      · omega
  | letter listed =>
      have plain : ∀ x ∈ letters, ∀ d ∈ ['\\', x.2], 0x20 ≤ d.toNat := by simp [letters]
      exact plain _ listed
  | codePoint =>
      have sign : ∀ d ∈ ['\\', 'u', '\x7b'], 0x20 ≤ d.toNat := by simp
      have digit : ∀ n < 16, 0x20 ≤ (Nat.digitChar n).toNat := by decide
      refine List.forall_mem_append.mpr ⟨List.forall_mem_append.mpr ⟨sign, ?_⟩, by simp⟩
      intro d member
      obtain ⟨n, small, rfl⟩ := Digits.exists_of_mem_toDigits (by decide) member
      exact digit n small

/-! ## Texts -/

theorem toList_quoted (text : String) :
    (quoted text).toList = '"' :: (text.toList.flatMap escape ++ ['"']) :=
  String.toList_ofList

/-- What stands between quotes is one text, and ends at one place. -/
theorem flatMap_escape_inj {chars others rest rest' : List Char}
    (same : chars.flatMap escape ++ '"' :: rest = others.flatMap escape ++ '"' :: rest') :
    chars = others ∧ rest = rest' := by
  induction chars generalizing others with
  | nil =>
      cases others with
      | nil => exact ⟨rfl, (List.cons.inj same).2⟩
      | cons d others =>
          rw [List.flatMap_cons, List.append_assoc] at same
          exact absurd same.symm (escapes_escape d).not_quote
  | cons c chars ih =>
      rw [List.flatMap_cons, List.append_assoc] at same
      cases others with
      | nil => exact absurd same (escapes_escape c).not_quote
      | cons d others =>
          rw [List.flatMap_cons, List.append_assoc] at same
          obtain ⟨rfl, behind⟩ := (escapes_escape c).unique (escapes_escape d) same
          obtain ⟨rfl, further⟩ := ih behind
          exact ⟨rfl, further⟩

/-- A quoted text is one text, whatever follows it. -/
theorem quoted_append_inj {text other : String} {rest rest' : List Char}
    (same : (quoted text).toList ++ rest = (quoted other).toList ++ rest') :
    text = other ∧ rest = rest' := by
  simp only [toList_quoted, List.cons_append, List.append_assoc, List.cons.injEq,
    true_and] at same
  obtain ⟨sameChars, behind⟩ := flatMap_escape_inj same
  exact ⟨String.toList_inj.mp sameChars, behind⟩

theorem plain_quoted (text : String) : Plain (quoted text) := by
  intro c member
  rw [toList_quoted, List.mem_cons, List.mem_append, List.mem_flatMap, List.mem_singleton] at member
  rcases member with rfl | ⟨d, _, written⟩ | rfl
  · decide
  · exact (escapes_escape d).plain c written
  · decide

end Lexis.Quoted
