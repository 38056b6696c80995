/-
# Lexis.Proofs.Alphabet -- the bytes of the grammar, listed

What the grammar says of bytes it says by lists, which are written out: white space, the
digits, the bytes of names and those of marks.  A scanner compares bytes instead, and each
of its tests holds of the bytes of one list and of no others (`isBlank_or_lineFeed_iff`,
`isDigit_iff`, `isNameStart_iff`, `isNameByte_iff`).
-/
import Lexis.Byte
import Lexis.Text.Utf8

namespace Lexis.Byte

set_option autoImplicit false

/-! ## Lists of bytes -/

/-- Space, tab, line feed, vertical tab, form feed and carriage return. -/
def whitespace : List UInt8 :=
  [0x20, 0x09, 0x0A, 0x0B, 0x0C, 0x0D]

def digits : List UInt8 :=
  Utf8.encode "0123456789"

/-- The letters and the underscore. -/
def nameStarts : List UInt8 :=
  Utf8.encode "ABCDEFGHIJKLMNOPQRSTUVWXYZabcdefghijklmnopqrstuvwxyz_"

def nameBytes : List UInt8 :=
  nameStarts ++ digits

/-- The bytes of which marks are made. -/
def markBytes : List UInt8 :=
  Utf8.encode "()\x7b\x7d[].,:;+-*/%=!<>&|^~$@"

/-- The bytes that may stand anywhere, whatever is before and behind them. -/
def standalone : List UInt8 :=
  whitespace ++ nameBytes ++ markBytes

/-! ## Tests of bytes -/

/-- What holds of every byte can be checked value by value. -/
theorem forall_of_lt {p : UInt8 → Prop} (check : ∀ n, n < 256 → p (UInt8.ofNat n))
    (b : UInt8) : p b := by
  have checked := check b.toNat b.toNat_lt
  rwa [UInt8.ofNat_toNat] at checked

/-- A test holds of the bytes of a list, when all that pass it are listed and all that are
listed pass it. -/
theorem test_iff {test : UInt8 → Bool} {listed : List UInt8}
    (isListed : ∀ n, n < 256 → test (UInt8.ofNat n) = true → UInt8.ofNat n ∈ listed)
    (passes : ∀ b ∈ listed, test b = true) (b : UInt8) : test b = true ↔ b ∈ listed :=
  ⟨forall_of_lt (p := fun b => test b = true → b ∈ listed) isListed b, passes b⟩

variable {b : UInt8}

theorem isBlank_or_lineFeed_iff : (isBlank b || b == lineFeed) = true ↔ b ∈ whitespace :=
  @test_iff (fun b => isBlank b || b == lineFeed) _ (by decide +kernel) (by decide +kernel) b

theorem isDigit_iff : isDigit b = true ↔ b ∈ digits :=
  test_iff (by decide +kernel) (by decide +kernel) b

theorem isNameStart_iff : isNameStart b = true ↔ b ∈ nameStarts :=
  test_iff (by decide +kernel) (by decide +kernel) b

theorem isNameByte_iff : isNameByte b = true ↔ b ∈ nameBytes := by
  rw [nameBytes, List.mem_append, ← isNameStart_iff, ← isDigit_iff, isNameByte, Bool.or_eq_true]

theorem isDigit_eq_false_iff : isDigit b = false ↔ b ∉ digits := by
  rw [← isDigit_iff, Bool.not_eq_true]

theorem isNameStart_eq_false_iff : isNameStart b = false ↔ b ∉ nameStarts := by
  rw [← isNameStart_iff, Bool.not_eq_true]

end Lexis.Byte
