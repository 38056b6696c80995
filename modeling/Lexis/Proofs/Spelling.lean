/-
# Lexis.Proofs.Spelling -- how each lexeme is spelled, and what may follow it

`l.Spelled e spelling rest` is the grammar of lexemes: the bytes `spelling`, with
`rest` behind them, are the lexeme `l`, and `e` is what is wrong with it.  What
follows matters only where a rule names it: a number and a word end where no
byte goes on with them, a string or a char literal without its closing quote
says what stands there instead, and a mark is the longest one.

`reads_read` says that every reading at a cursor is by this grammar.
-/
import Lexis.Proofs.Vocabulary

namespace Lexis

set_option autoImplicit false

/-- Nothing but the end of a line or of the text stands ahead. -/
def AtLineEnd (rest : List UInt8) : Prop :=
  ∀ b ∈ rest.head?, b = Byte.lineFeed

/-- Digits, one at least. -/
def Digits (bytes : List UInt8) : Prop :=
  bytes ≠ [] ∧ ∀ b ∈ bytes, b ∈ Byte.digits

theorem Digits.isDigit {bytes : List UInt8} (digits : Digits bytes) :
    ∀ b ∈ bytes, Byte.isDigit b = true :=
  fun b member => Byte.isDigit_iff.mpr (digits.2 b member)

/-! ## The grammar -/

inductive Lexeme.Spelled :
    Lexeme → Option LexicalError → List UInt8 → List UInt8 → Prop
  | int32 {digits rest : List UInt8} (isDigits : Digits digits)
      (stops : ∀ b ∈ rest.head?, Byte.isDigit b = false)
      (noFraction : ∀ b tail, rest = Byte.dot :: b :: tail → Byte.isDigit b = false) :
      Spelled (.literal .int32 digits) none digits rest
  | float64 {whole fraction rest : List UInt8} (wholeDigits : Digits whole)
      (fractionDigits : Digits fraction) (stops : ∀ b ∈ rest.head?, Byte.isDigit b = false) :
      Spelled (.literal .float64 (whole ++ Byte.dot :: fraction)) none
        (whole ++ Byte.dot :: fraction) rest
  | word {b : UInt8} {tail rest : List UInt8} (starts : Byte.isNameStart b = true)
      (goesOn : ∀ x ∈ tail, Byte.isNameByte x = true)
      (stops : ∀ x ∈ rest.head?, Byte.isNameByte x = false) :
      Spelled (.word (b :: tail)) none (b :: tail) rest
  | string {text rest : List UInt8} (noQuote : Byte.quote ∉ text)
      (oneLine : Byte.lineFeed ∉ text) :
      Spelled (.literal .string text) none (Byte.quote :: text ++ [Byte.quote]) rest
  | openString {text rest : List UInt8} (noQuote : Byte.quote ∉ text)
      (oneLine : Byte.lineFeed ∉ text) (stops : AtLineEnd rest) :
      Spelled (.literal .string text) (some .unterminatedString) (Byte.quote :: text) rest
  | char {b : UInt8} {rest : List UInt8} (oneLine : b ≠ Byte.lineFeed) :
      Spelled (.literal .char [b]) none [Byte.apostrophe, b, Byte.apostrophe] rest
  | openChar {b : UInt8} {rest : List UInt8} (oneLine : b ≠ Byte.lineFeed)
      (stops : Byte.apostrophe ∉ rest.head?) :
      Spelled (.literal .char [b]) (some .unterminatedChar) [Byte.apostrophe, b] rest
  | emptyChar {rest : List UInt8} (stops : AtLineEnd rest) :
      Spelled (.literal .char []) (some .unterminatedChar) [Byte.apostrophe] rest
  | mark {mark : Punctuation} {rest : List UInt8}
      (longest : ∀ other : Punctuation, other.bytes <+: mark.bytes ++ rest →
        other.bytes.length ≤ mark.bytes.length) :
      Spelled (.punctuation mark) none mark.bytes rest
  | unknown {b : UInt8} {rest : List UInt8} (notDigit : Byte.isDigit b = false)
      (notName : Byte.isNameStart b = false) (notQuote : b ≠ Byte.quote)
      (notApostrophe : b ≠ Byte.apostrophe)
      (noMark : ∀ mark : Punctuation, ¬ mark.bytes <+: b :: rest) :
      Spelled (.unknown b) (some (.unknownByte b)) [b] rest

namespace Lexeme.Spelled

variable {l : Lexeme} {e : Option LexicalError} {spelling rest : List UInt8}

theorem spelling_ne_nil (spelled : l.Spelled e spelling rest) : spelling ≠ [] := by
  cases spelled with
  | int32 isDigits => exact isDigits.1
  | float64 => simp
  | mark => exact Punctuation.bytes_ne_nil _
  | _ => exact List.cons_ne_nil _ _

/-- A lexeme stays on its line, unless it is the line feed itself, which starts
no token. -/
theorem lineFeed_notMem (spelled : l.Spelled e spelling rest)
    (atToken : ∀ b ∈ spelling.head?, Byte.startsTrivia b = false) :
    Byte.lineFeed ∉ spelling := by
  intro member
  cases spelled with
  | int32 isDigits =>
      exact absurd (isDigits.isDigit _ member) (by decide)
  | float64 wholeDigits fractionDigits =>
      rcases List.mem_append.mp member with inWhole | inFraction
      · exact absurd (wholeDigits.isDigit _ inWhole) (by decide)
      · rcases List.mem_cons.mp inFraction with isPoint | inDigits
        · exact absurd isPoint (by decide)
        · exact absurd (fractionDigits.isDigit _ inDigits) (by decide)
  | word starts goesOn =>
      rcases List.mem_cons.mp member with first | later
      · exact absurd (first ▸ starts) (by decide)
      · exact absurd (goesOn _ later) (by decide)
  | string _ oneLine | openString _ oneLine =>
      have isQuote : Byte.lineFeed = Byte.quote := by simpa [oneLine] using member
      exact absurd isQuote (by decide)
  | char oneLine | openChar oneLine =>
      have isApostrophe : Byte.lineFeed = Byte.apostrophe := by simpa [oneLine.symm] using member
      exact absurd isApostrophe (by decide)
  | emptyChar =>
      exact absurd (List.mem_singleton.mp member) (by decide)
  | @mark mark => exact mark.lineFeed_notMem_bytes member
  | unknown =>
      have isFeed := List.mem_singleton.mp member
      exact absurd (isFeed ▸ atToken _ rfl) (by decide)

end Lexeme.Spelled

/-! ## Reading -/

namespace Cursor

/-- A reading at a cursor passes bytes that spell its lexeme. -/
def Reads (c : Cursor) (r : Reading) : Prop :=
  ∃ spelling, c.Passes spelling r.stop ∧ r.lexeme.Spelled r.error spelling r.stop.rest

/-! ### Numbers and words -/

theorem digits_takeWhile {b : UInt8} {tail : List UInt8} (first : Byte.isDigit b = true) :
    Digits ((b :: tail).takeWhile Byte.isDigit) := by
  refine ⟨?_, fun b member => Byte.isDigit_iff.mp (List.mem_takeWhile_imp member)⟩
  rw [List.takeWhile_cons_of_pos first]
  exact List.cons_ne_nil _ _

theorem reads_readNumber {c : Cursor} {b : UInt8} {tail : List UInt8} (ahead : c.rest = b :: tail)
    (digit : Byte.isDigit b = true) : c.Reads c.readNumber := by
  have whole := c.passes_skipWhile Byte.isDigit
  have wholeDigits : Digits (c.rest.takeWhile Byte.isDigit) := ahead ▸ digits_takeWhile digit
  have wholeStops : ∀ b ∈ (c.skipWhile Byte.isDigit).rest.head?, Byte.isDigit b = false := by
    intro b first
    rw [rest_skipWhile] at first
    exact head?_dropWhile first
  unfold readNumber
  dsimp only
  split
  · rename_i point
    obtain ⟨isPoint, digitAfter⟩ := Bool.and_eq_true_iff.mp point
    obtain ⟨after, pointAhead⟩ := rest_eq_cons (beq_iff_eq.mp isPoint) (by decide)
    have pointPassed := passes_advance pointAhead
    have fraction := (c.skipWhile Byte.isDigit).advance.passes_skipWhile Byte.isDigit
    rw [rest_advance_of_rest pointAhead] at fraction
    have passed := whole.trans (pointPassed.trans fraction)
    refine ⟨_, passed, ?_⟩
    dsimp only
    rw [passed.sliceFrom_eq_passed]
    refine .float64 wholeDigits ?_ ?_
    · rw [peek_eq, pointAhead] at digitAfter
      cases after with
      | nil => exact absurd digitAfter (by decide)
      | cons d more => exact digits_takeWhile digitAfter
    · intro b first
      rw [rest_skipWhile] at first
      exact head?_dropWhile first
  · rename_i noPoint
    refine ⟨_, whole, ?_⟩
    dsimp only
    rw [whole.sliceFrom_eq_passed]
    refine .int32 wholeDigits wholeStops ?_
    intro d more following
    rw [current_eq, peek_eq, following] at noPoint
    simpa using noPoint

theorem reads_readWord {c : Cursor} {b : UInt8} {tail : List UInt8} (ahead : c.rest = b :: tail)
    (starts : Byte.isNameStart b = true) : c.Reads c.readWord := by
  have passed := c.passes_skipWhile Byte.isNameByte
  have stops : ∀ x ∈ (c.skipWhile Byte.isNameByte).rest.head?, Byte.isNameByte x = false := by
    intro x first
    rw [rest_skipWhile] at first
    exact head?_dropWhile first
  refine ⟨_, passed, ?_⟩
  unfold readWord
  dsimp only
  rw [passed.sliceFrom_eq_passed, ahead,
    List.takeWhile_cons_of_pos (Byte.isNameByte_of_isNameStart starts)]
  exact .word starts (fun _ => List.mem_takeWhile_imp) stops

/-! ### Strings and char literals -/

theorem reads_readString {c : Cursor} {tail : List UInt8} (ahead : c.rest = Byte.quote :: tail) :
    c.Reads c.readString := by
  have opening := passes_advance ahead
  have content := rest_advance_of_rest ahead
  have body := c.advance.passes_seek Byte.quote
  have stop : (c.advance.seek Byte.quote).2.rest =
      tail.dropWhile fun b => !(b == Byte.quote || b == Byte.lineFeed) := by
    rw [rest_seek, content]
  have found := c.advance.seek_fst Byte.quote
  rw [content] at body
  have noQuote : Byte.quote ∉ tail.takeWhile fun b => !(b == Byte.quote || b == Byte.lineFeed) := by
    intro member
    simpa using List.mem_takeWhile_imp member
  have oneLine : Byte.lineFeed ∉
      tail.takeWhile fun b => !(b == Byte.quote || b == Byte.lineFeed) := by
    intro member
    simpa using List.mem_takeWhile_imp member
  unfold readString
  dsimp only
  split
  · rename_i closes
    rw [found] at closes
    obtain ⟨more, atQuote⟩ := List.head?_eq_some_iff.mp closes
    have closing := passes_advance atQuote
    refine ⟨_, opening.trans (body.trans closing), ?_⟩
    dsimp only
    rw [body.sliceFrom_eq_passed]
    exact .string noQuote oneLine
  · rename_i noCloser
    rw [found] at noCloser
    refine ⟨_, opening.trans body, ?_⟩
    dsimp only
    rw [body.sliceFrom_eq_passed]
    refine .openString noQuote oneLine ?_
    intro b first
    have delimits := head?_dropWhile (stop ▸ first)
    have notQuote : b ≠ Byte.quote := fun same => noCloser (same ▸ first)
    simpa [notQuote] using delimits

theorem advanceOnLine_eq_self {c : Cursor} (ended : AtLineEnd c.rest) : c.advanceOnLine = c := by
  unfold advanceOnLine
  refine if_pos ?_
  cases ahead : c.rest with
  | nil => rw [(atEnd_iff c).mpr ahead, Bool.true_or]
  | cons b tail =>
      have feed := ended b (by rw [ahead]; rfl)
      rw [current_of_rest ahead, feed]
      simp

theorem passes_advanceOnLine {c : Cursor} {b : UInt8} {tail : List UInt8}
    (ahead : c.rest = b :: tail) (oneLine : b ≠ Byte.lineFeed) : c.Passes [b] c.advanceOnLine := by
  unfold advanceOnLine
  rw [if_neg (by rw [current_of_rest ahead, atEnd_eq_false ahead]; simpa using oneLine)]
  exact passes_advance ahead

/-- The test for a closing apostrophe, which must be a byte of the text. -/
theorem closes_iff (c : Cursor) :
    (!c.atEnd && c.current == Byte.apostrophe) = true ↔ Byte.apostrophe ∈ c.rest.head? := by
  cases ahead : c.rest with
  | nil =>
      rw [(atEnd_iff c).mpr ahead]
      simp
  | cons b tail =>
      rw [atEnd_eq_false ahead, current_of_rest ahead]
      simp

theorem reads_readChar {c : Cursor} {tail : List UInt8}
    (ahead : c.rest = Byte.apostrophe :: tail) : c.Reads c.readChar := by
  have opening := passes_advance ahead
  have content := rest_advance_of_rest ahead
  unfold readChar
  dsimp only
  by_cases ended : AtLineEnd tail
  · rw [advanceOnLine_eq_self (content.symm ▸ ended)]
    have noCloser : Byte.apostrophe ∉ c.advance.rest.head? := by
      rw [content]
      intro first
      exact absurd (ended _ first) (by decide)
    rw [if_neg (mt (closes_iff _).mp noCloser)]
    refine ⟨_, opening, ?_⟩
    dsimp only
    rw [(Passes.refl c.advance).sliceFrom_eq_passed, content]
    exact .emptyChar ended
  · obtain ⟨b, first, oneLine⟩ : ∃ b ∈ tail.head?, b ≠ Byte.lineFeed := by
      simpa [AtLineEnd] using ended
    obtain ⟨more, rfl⟩ := List.head?_eq_some_iff.mp first
    have body := passes_advanceOnLine content oneLine
    split
    · rename_i closes
      obtain ⟨after, atApostrophe⟩ := List.head?_eq_some_iff.mp ((closes_iff _).mp closes)
      refine ⟨_, opening.trans (body.trans (passes_advance atApostrophe)), ?_⟩
      dsimp only
      rw [body.sliceFrom_eq_passed]
      exact .char oneLine
    · rename_i noCloser
      refine ⟨_, opening.trans body, ?_⟩
      dsimp only
      rw [body.sliceFrom_eq_passed]
      exact .openChar oneLine (mt (closes_iff _).mpr noCloser)

/-! ### Marks -/

theorem take_of_prefix {spelling bytes : List UInt8} (begins : spelling <+: bytes) :
    bytes.take spelling.length = spelling := by
  obtain ⟨tail, rfl⟩ := begins
  exact List.take_left

theorem reads_readMark {c : Cursor} {b : UInt8} {tail : List UInt8} (ahead : c.rest = b :: tail)
    (notDigit : Byte.isDigit b = false) (notName : Byte.isNameStart b = false)
    (notQuote : b ≠ Byte.quote) (notApostrophe : b ≠ Byte.apostrophe) : c.Reads c.readMark := by
  have search : Punctuation.longest? c.current (c.peek 1) (c.peek 2) =
      Punctuation.ahead? c.rest := by
    rw [current, peek_eq, peek_eq, peek_eq]
    rfl
  unfold readMark
  rw [search]
  split
  · rename_i mark length found
    obtain ⟨begins, longest⟩ := Punctuation.longest_of_ahead? found
    have passed := c.passes_advanceBy length
    rw [Punctuation.length_of_ahead? found, take_of_prefix begins] at passed
    rw [Punctuation.length_of_ahead? found]
    refine ⟨_, passed, .mark ?_⟩
    intro other starts
    rw [← passed.rest_eq] at starts
    exact longest other starts
  · rename_i nothing
    have passed := passes_advance ahead
    refine ⟨_, passed, ?_⟩
    dsimp only
    rw [current_of_rest ahead]
    refine .unknown notDigit notName notQuote notApostrophe ?_
    intro mark starts
    refine Punctuation.not_prefix_of_ahead?_eq_none nothing mark ?_
    rw [passed.rest_eq]
    exact starts

/-- Reading where bytes are ahead follows the grammar. -/
theorem reads_read {c : Cursor} (more : c.rest ≠ []) : c.Reads c.read := by
  obtain ⟨b, tail, ahead⟩ := List.exists_cons_of_ne_nil more
  unfold read
  dsimp only
  rw [current_of_rest ahead]
  split
  · exact reads_readNumber ahead ‹_›
  · split
    · exact reads_readWord ahead ‹_›
    · split
      · rename_i isQuote
        exact reads_readString (beq_iff_eq.mp isQuote ▸ ahead)
      · split
        · rename_i isApostrophe
          exact reads_readChar (beq_iff_eq.mp isApostrophe ▸ ahead)
        · rename_i notDigit notName notQuote notApostrophe
          exact reads_readMark ahead (Bool.eq_false_iff.mpr notDigit)
            (Bool.eq_false_iff.mpr notName) (mt beq_iff_eq.mpr notQuote)
            (mt beq_iff_eq.mpr notApostrophe)

end Cursor

end Lexis
