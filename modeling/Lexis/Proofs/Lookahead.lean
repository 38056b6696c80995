/-
# Lexis.Proofs.Lookahead -- how much of what follows a lexeme matters to it

A lexeme is spelled by its own bytes, but the grammar also looks at what stands
behind them.  It never looks far: a point and a digit may go on with a number, two
bytes more may make a longer mark, and every other rule looks at one byte.  So two
texts may be exchanged behind a lexeme when they begin with the same two bytes
(`of_take_two`).

A line feed goes on with nothing, closes nothing and ends every line, so it may
stand behind any lexeme, whatever comes after it (`before_lineFeed`).
-/
import Lexis.Proofs.Unambiguous

namespace Lexis

set_option autoImplicit false

/-! ## Beginnings of a text -/

/-- A word without a byte goes no further than to the first such byte. -/
theorem prefix_of_notMem {word front tail : List UInt8} {b : UInt8} (absent : b ∉ word)
    (begins : word <+: front ++ b :: tail) : word <+: front := by
  induction word generalizing front with
  | nil => exact List.nil_prefix
  | cons x word ih =>
      have notFirst : b ≠ x := fun same => absent (by simp [same])
      have notLater : b ∉ word := fun member => absent (by simp [member])
      cases front with
      | nil =>
          obtain ⟨_, same⟩ := begins
          exact absurd (List.cons.inj same).1.symm notFirst
      | cons y front =>
          obtain ⟨rfl, more⟩ := List.cons_prefix_cons.mp begins
          exact List.cons_prefix_cons.mpr ⟨rfl, ih notLater more⟩

/-- A short word sees only the first bytes behind a front. -/
theorem prefix_of_take_eq {word front rest rest' : List UInt8} {n : Nat}
    (short : word.length ≤ front.length + n) (same : rest.take n = rest'.take n)
    (begins : word <+: front ++ rest') : word <+: front ++ rest := by
  have within : word <+: (front ++ rest').take (front.length + n) :=
    List.prefix_take_iff.mpr ⟨begins, short⟩
  rw [List.take_length_add_append, ← same, ← List.take_length_add_append] at within
  exact within.trans (List.take_prefix _ _)

theorem head?_eq_of_take_two {rest rest' : List UInt8} (same : rest.take 2 = rest'.take 2) :
    rest.head? = rest'.head? := by
  have heads := congrArg List.head? same
  simpa [List.head?_take] using heads

/-! ## What may stand behind a lexeme -/

namespace Lexeme.Spelled

variable {l : Lexeme} {e : Option LexicalError} {spelling rest rest' : List UInt8}

theorem before_lineFeed (spelled : l.Spelled e spelling rest) (tail : List UInt8) :
    l.Spelled e spelling (Byte.lineFeed :: tail) := by
  have stops {inClass : UInt8 → Bool} (outside : inClass Byte.lineFeed = false) :
      ∀ b ∈ (Byte.lineFeed :: tail).head?, inClass b = false := by
    intro b first
    rw [← Option.some.inj first]
    exact outside
  cases spelled with
  | int32 isDigits =>
      refine .int32 isDigits (stops (by decide)) ?_
      intro b more same
      exact absurd (List.cons.inj same).1 (by decide)
  | float64 wholeDigits fractionDigits =>
      exact .float64 wholeDigits fractionDigits (stops (by decide))
  | word starts goesOn => exact .word starts goesOn (stops (by decide))
  | string noQuote oneLine => exact .string noQuote oneLine
  | openString noQuote oneLine => exact .openString noQuote oneLine (atLineEnd_lineFeed tail)
  | char oneLine => exact .char oneLine
  | openChar oneLine =>
      refine .openChar oneLine ?_
      intro first
      exact absurd (Option.some.inj first) (by decide)
  | emptyChar => exact .emptyChar (atLineEnd_lineFeed tail)
  | @mark mark =>
      refine .mark ?_
      intro other begins
      exact (prefix_of_notMem other.lineFeed_notMem_bytes begins).length_le
  | @unknown b rest notDigit notName notQuote notApostrophe noMark =>
      refine .unknown notDigit notName notQuote notApostrophe ?_
      intro mark begins
      have onlyByte : mark.bytes <+: [b] := prefix_of_notMem mark.lineFeed_notMem_bytes begins
      exact noMark mark (onlyByte.trans (List.prefix_append [b] rest))

theorem of_take_two (spelled : l.Spelled e spelling rest) (same : rest.take 2 = rest'.take 2) :
    l.Spelled e spelling rest' := by
  have first := head?_eq_of_take_two same
  cases spelled with
  | int32 isDigits stops noFraction =>
      refine .int32 isDigits (first ▸ stops) ?_
      intro b tail pointAhead
      rw [pointAhead] at same
      refine noFraction b (rest.drop 2) ?_
      rw [← List.take_append_drop 2 rest, same]
      simp
  | float64 wholeDigits fractionDigits stops =>
      exact .float64 wholeDigits fractionDigits (first ▸ stops)
  | word starts goesOn stops => exact .word starts goesOn (first ▸ stops)
  | string noQuote oneLine => exact .string noQuote oneLine
  | openString noQuote oneLine stops =>
      refine .openString noQuote oneLine ?_
      unfold AtLineEnd
      exact first ▸ stops
  | char oneLine => exact .char oneLine
  | openChar oneLine stops => exact .openChar oneLine (first ▸ stops)
  | emptyChar stops =>
      refine .emptyChar ?_
      unfold AtLineEnd
      exact first ▸ stops
  | @mark mark _ longest =>
      refine .mark ?_
      intro other begins
      have short := other.length_bytes_le
      have long := List.length_pos_iff.mpr mark.bytes_ne_nil
      exact longest other (prefix_of_take_eq (by omega) same begins)
  | @unknown b rest notDigit notName notQuote notApostrophe noMark =>
      refine .unknown notDigit notName notQuote notApostrophe ?_
      intro mark begins
      have short := mark.length_bytes_le
      have begins : mark.bytes <+: [b] ++ rest' := begins
      have further := prefix_of_take_eq (by rw [List.length_singleton]; omega) same begins
      exact noMark mark further

end Lexeme.Spelled

end Lexis
