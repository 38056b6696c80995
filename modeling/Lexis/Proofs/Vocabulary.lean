/-
# Lexis.Proofs.Vocabulary -- marks and keywords as bytes

The table of rows by which marks are found tells bytes and lengths of its own.  They are
the bytes that spell the marks and their number (`ahead_of_mem_rows`), and no row stands
behind a shorter one (`pairwise_rows`).  So the first row that fits is the longest mark that
is spelled ahead (`longest_of_ahead?`), and where none fits no mark is spelled there
(`not_prefix_of_ahead?_eq_none`).  No mark has a zero byte, so zeros past the end do not
matter (`prefix_window_iff`).

A keyword is read from the text of a word, and a word has ASCII bytes only.  Reading
them as UTF-8 repairs nothing (`Utf8.read_eq_ofAscii`), so the text and the bytes say
the same (`Keyword.ofText?_read_iff`).
-/
import Lexis.Proofs.Trivia
import Lexis.Scanner

namespace Lexis

set_option autoImplicit false

/-! ## Marks -/

namespace Punctuation

/-- The bytes that spell a mark. -/
def bytes (p : Punctuation) : List UInt8 :=
  Utf8.encode p.lexeme

theorem length_bytes (p : Punctuation) : p.bytes.length = p.lexeme.utf8ByteSize := by
  cases p <;> decide

theorem bytes_ne_nil (p : Punctuation) : p.bytes ≠ [] := by
  intro empty
  have positive := p.utf8ByteSize_lexeme_pos
  rw [← length_bytes, empty] at positive
  exact Nat.lt_irrefl 0 positive

theorem length_bytes_le (p : Punctuation) : p.bytes.length ≤ 3 := by
  rw [length_bytes]
  exact p.utf8ByteSize_lexeme_le

theorem zero_notMem_bytes (p : Punctuation) : 0 ∉ p.bytes := by
  cases p <;> decide

theorem lineFeed_notMem_bytes (p : Punctuation) : Byte.lineFeed ∉ p.bytes := by
  cases p <;> decide

/-- No two marks are spelled the same. -/
theorem bytes_injective {p q : Punctuation} (same : p.bytes = q.bytes) : p = q := by
  have spelled := Utf8.encode_injective same
  have distinct : ∀ p ∈ all, ∀ q ∈ all, p.lexeme = q.lexeme → p = q := by decide +kernel
  exact distinct p p.mem_all q q.mem_all spelled

/-! ### The table -/

/-- What a row looks for is what spells its mark. -/
theorem ahead_of_mem_rows : ∀ row ∈ rows, row.ahead = row.mark.bytes := by
  decide +kernel

/-- Every mark has a row. -/
theorem exists_row (p : Punctuation) : ∃ row ∈ rows, row.mark = p := by
  have each : ∀ p ∈ all, ∃ row ∈ rows, row.mark = p := by decide +kernel
  exact each p p.mem_all

/-- No row stands behind one that takes fewer bytes. -/
theorem pairwise_rows : rows.Pairwise fun row later => later.length ≤ row.length := by
  decide +kernel

/-! ### The bytes ahead -/

/-- The three bytes at the front, with zeros past the end. -/
def window (bytes : List UInt8) : List UInt8 :=
  [bytes.getD 0 0, bytes.getD 1 0, bytes.getD 2 0]

theorem window_eq (bytes : List UInt8) :
    window bytes = (bytes ++ List.replicate 3 0).take 3 := by
  rcases bytes with _ | ⟨a, _ | ⟨b, _ | ⟨c, rest⟩⟩⟩ <;> rfl

/-- What stands before zeros and has none itself stands before the first of them. -/
theorem prefix_append_zeros_iff {spelling bytes : List UInt8} {count : Nat}
    (nonzero : 0 ∉ spelling) :
    spelling <+: bytes ++ List.replicate count 0 ↔ spelling <+: bytes := by
  refine ⟨fun begins => ?_, fun begins => begins.trans (List.prefix_append _ _)⟩
  rcases List.prefix_or_prefix_of_prefix begins (List.prefix_append bytes _) with done | longer
  · exact done
  · obtain ⟨zeros, rfl⟩ := longer
    cases zeros with
    | nil => exact (List.append_nil bytes).symm ▸ List.prefix_rfl
    | cons b zeros =>
        have inZeros := (List.prefix_append_right_inj bytes).mp begins
        have isZero := List.eq_of_mem_replicate (inZeros.subset List.mem_cons_self)
        exact absurd (List.mem_append_right bytes (isZero ▸ List.mem_cons_self)) nonzero

/-- A mark is spelled by the bytes ahead where it is spelled by three of them. -/
theorem prefix_window_iff (p : Punctuation) (bytes : List UInt8) :
    p.bytes <+: window bytes ↔ p.bytes <+: bytes := by
  rw [window_eq, List.prefix_take_iff, prefix_append_zeros_iff p.zero_notMem_bytes]
  exact and_iff_left p.length_bytes_le

/-! ### The longest mark -/

/-- The longest mark that some bytes begin with, and how many of them it takes. -/
def ahead? (bytes : List UInt8) : Option (Punctuation × Nat) :=
  longest? (bytes.getD 0 0) (bytes.getD 1 0) (bytes.getD 2 0)

theorem fits_iff {row : Row} (isRow : row ∈ rows) (bytes : List UInt8) :
    row.fits (bytes.getD 0 0) (bytes.getD 1 0) (bytes.getD 2 0) = true ↔
      row.mark.bytes <+: bytes := by
  rw [← prefix_window_iff, ← ahead_of_mem_rows row isRow]
  exact List.isPrefixOf_iff_prefix

variable {bytes : List UInt8} {p : Punctuation} {length : Nat}

theorem length_of_ahead? (found : ahead? bytes = some (p, length)) : length = p.bytes.length :=
  (length_of_longest? found).trans p.length_bytes.symm

/-- What is found first in a sorted list stands before all else that could be found. -/
theorem rel_of_find?_eq_some {α : Type} {fits : α → Bool} {rel : α → α → Prop} {items : List α}
    {first other : α} (sorted : items.Pairwise rel) (found : items.find? fits = some first)
    (member : other ∈ items) (otherFits : fits other = true) : other = first ∨ rel first other := by
  obtain ⟨_, before, behind, split, noneBefore⟩ := List.find?_eq_some_iff_append.mp found
  rw [split] at member sorted
  rcases List.mem_append.mp member with earlier | here
  · have unfit := noneBefore other earlier
    rw [otherFits] at unfit
    cases unfit
  · rcases List.mem_cons.mp here with same | later
    · exact .inl same
    · exact .inr ((List.pairwise_cons.mp (List.pairwise_append.mp sorted).2.1).1 other later)

/-- What is found is spelled ahead, and nothing longer is. -/
theorem longest_of_ahead? (found : ahead? bytes = some (p, length)) :
    p.bytes <+: bytes ∧ ∀ other : Punctuation, other.bytes <+: bytes →
      other.bytes.length ≤ p.bytes.length := by
  obtain ⟨row, first, same⟩ := Option.map_eq_some_iff.mp found
  cases same
  have isRow := List.mem_of_find?_eq_some first
  have fits := (List.find?_eq_some_iff_append.mp first).1
  refine ⟨(fits_iff isRow bytes).mp fits, fun other begins => ?_⟩
  obtain ⟨row', isRow', rfl⟩ := exists_row other
  have fits' := (fits_iff isRow' bytes).mpr begins
  rw [length_bytes, length_bytes, ← length_of_mem_rows row isRow, ← length_of_mem_rows row' isRow']
  rcases rel_of_find?_eq_some pairwise_rows first isRow' fits' with rfl | shorter
  · exact Nat.le_refl _
  · exact shorter

theorem not_prefix_of_ahead?_eq_none (nothing : ahead? bytes = none) (p : Punctuation) :
    ¬ p.bytes <+: bytes := by
  intro begins
  obtain ⟨row, isRow, rfl⟩ := exists_row p
  have unfit := List.find?_eq_none.mp (Option.map_eq_none_iff.mp nothing) row isRow
  exact unfit ((fits_iff isRow bytes).mpr begins)

end Punctuation

/-! ## Keywords -/

namespace Utf8

/-- A byte below 0x80 is the UTF-8 form of its character. -/
theorem utf8EncodeChar_ofNat_toNat {b : UInt8} (ascii : b < 0x80) :
    String.utf8EncodeChar (Char.ofNat b.toNat) = [b] := by
  have each : ∀ b : UInt8, b < 0x80 → String.utf8EncodeChar (Char.ofNat b.toNat) = [b] :=
    Byte.forall_of_lt (by decide +kernel)
  exact each b ascii

/-- The text of bytes below 0x80, each of which is a character. -/
def ofAscii (bytes : List UInt8) : String :=
  String.ofList (bytes.map fun b => Char.ofNat b.toNat)

theorem encode_ofAscii {bytes : List UInt8} (ascii : ∀ b ∈ bytes, b < 0x80) :
    encode (ofAscii bytes) = bytes := by
  unfold encode ofAscii
  rw [String.toList_ofList]
  induction bytes with
  | nil => rfl
  | cons b rest ih =>
      rw [List.map_cons, List.flatMap_cons, utf8EncodeChar_ofNat_toNat (ascii b List.mem_cons_self),
        ih fun x member => ascii x (List.mem_cons_of_mem b member)]
      rfl

variable {bytes : List UInt8}

/-- Bytes below 0x80 are UTF-8, so reading them repairs nothing. -/
theorem read_eq_ofAscii (ascii : ∀ b ∈ bytes, b < 0x80) : read bytes = ofAscii bytes := by
  have back := read_encode (ofAscii bytes)
  rwa [encode_ofAscii ascii] at back

theorem encode_read (ascii : ∀ b ∈ bytes, b < 0x80) : encode (read bytes) = bytes := by
  rw [read_eq_ofAscii ascii, encode_ofAscii ascii]

end Utf8

namespace Keyword

/-- The bytes that spell a keyword. -/
def bytes (k : Keyword) : List UInt8 :=
  Utf8.encode k.lexeme

/-- A word is read as the keyword that has the same bytes. -/
theorem ofText?_read_iff {word : List UInt8} (ascii : ∀ b ∈ word, b < 0x80) {k : Keyword} :
    ofText? (Utf8.read word) = some k ↔ k.bytes = word := by
  rw [ofText?_eq_some_iff, bytes]
  constructor
  · intro spelled
    rw [spelled, Utf8.encode_read ascii]
  · intro same
    refine Utf8.encode_injective ?_
    rw [same, Utf8.encode_read ascii]

end Keyword

end Lexis
