/-
# Lexis.Proofs.PlainText -- texts without control characters, and texts in lines

The words, numbers and marks that are written about a source hold no control
character: they are plain (`Plain`).  A byte of the UTF-8 form of a text that is
below 0x80 is a character of the text (`Utf8.mem_encode_iff`), so no control byte is
written by them: no line feed, which would break a line, and no escape, which would
begin a control sequence.

`Framed lines text` says that a text is so many lines, each with the line feed that
ends it.  A text is framed in one way (`Framed.unique`).
-/
import Lexis.Position
import Lexis.Proofs.Unambiguous

namespace Lexis

set_option autoImplicit false

/-! ## Bytes and characters -/

namespace Utf8

variable {b : UInt8}

/-- The characters below U+0080 are one byte each, and no other has such a byte. -/
theorem mem_utf8EncodeChar_iff (ascii : b < 0x80) {c : Char} :
    b ∈ String.utf8EncodeChar c ↔ c = Char.ofNat b.toNat := by
  constructor
  · intro member
    have low : b.toNat < 128 := ascii
    have sameValue : b.toNat = c.toNat := by
      unfold String.utf8EncodeChar at member
      have value : c.val.toNat = c.toNat := rfl
      simp only [value] at member
      split at member
      · rw [List.mem_singleton.mp member, UInt8.toNat_ofNat']
        omega
      -- Every other character has bytes from 0x80 on.
      all_goals
        exfalso
        repeat' split at member
        all_goals
          simp only [List.mem_cons, List.not_mem_nil, or_false, ← UInt8.toNat_inj,
            UInt8.toNat_ofNat'] at member
          omega
    rw [sameValue, Char.ofNat_toNat]
  · rintro rfl
    rw [utf8EncodeChar_ofNat_toNat ascii]
    exact List.mem_singleton_self b

theorem mem_encode_iff (ascii : b < 0x80) {text : String} :
    b ∈ encode text ↔ Char.ofNat b.toNat ∈ text.toList := by
  unfold encode
  rw [List.mem_flatMap]
  constructor
  · rintro ⟨c, present, member⟩
    rwa [← (mem_utf8EncodeChar_iff ascii).mp member]
  · intro present
    exact ⟨_, present, (mem_utf8EncodeChar_iff ascii).mpr rfl⟩

end Utf8

/-! ## Plain texts -/

/-- No character of the text is a control character below the space. -/
def Plain (text : String) : Prop :=
  ∀ c ∈ text.toList, 0x20 ≤ c.toNat

instance (text : String) : Decidable (Plain text) :=
  List.decidableBAll (fun c : Char => 0x20 ≤ c.toNat) text.toList

namespace Plain

variable {text other : String}

theorem append (plain : Plain text) (also : Plain other) : Plain (text ++ other) := by
  intro c member
  rw [String.toList_append] at member
  exact (List.mem_append.mp member).elim (plain c) (also c)

theorem nat (n : Nat) : Plain (toString n) := by
  intro c member
  rw [Nat.toString_eq_repr, Nat.toList_repr] at member
  have digit : c.isDigit = true := Nat.isDigit_of_mem_toDigits (by decide) (by decide) member
  have low : '0'.toNat ≤ c.toNat := (Char.isDigit_iff_toNat.mp digit).1
  exact Nat.le_trans (by decide) low

theorem position (p : Position) : Plain p.text :=
  ((nat p.line).append (by decide)).append (nat p.column)

/-- A plain text stays on its line. -/
theorem oneLine (plain : Plain text) : '\n' ∉ text.toList :=
  fun member => absurd (plain _ member) (by decide)

end Plain

/-- A text is plain when no control byte is written by it. -/
theorem plain_iff {text : String} : Plain text ↔ ∀ b : UInt8, b < 0x20 → b ∉ Utf8.encode text := by
  constructor
  · intro plain b control member
    have low : b.toNat < 32 := control
    have values : ∀ n, n < 32 → (Char.ofNat n).toNat = n := by decide
    have present := (Utf8.mem_encode_iff (Nat.lt_trans low (by decide))).mp member
    have printed := plain _ present
    rw [values b.toNat low] at printed
    omega
  · intro noControl c member
    by_contra control
    have value : (UInt8.ofNat c.toNat).toNat = c.toNat := by
      rw [UInt8.toNat_ofNat']
      omega
    have low : (UInt8.ofNat c.toNat).toNat < 32 := by omega
    refine noControl (UInt8.ofNat c.toNat) low ?_
    rw [Utf8.mem_encode_iff (Nat.lt_trans low (by decide)), value, Char.ofNat_toNat]
    exact member

theorem Plain.notMem_encode {text : String} (plain : Plain text) {b : UInt8} (control : b < 0x20) :
    b ∉ Utf8.encode text :=
  plain_iff.mp plain b control

theorem LexicalError.plain_message (e : LexicalError) : Plain e.message := by
  cases e with
  | unterminatedString | unterminatedChar => decide
  | unknownByte b =>
      have shown : ∀ b : UInt8, Plain (Escaped.escaped b) := Byte.forall_of_lt (by decide +kernel)
      have opening : Plain "unknown token '" := by decide
      exact (opening.append (shown b)).append (by decide)

/-! ## Numbers and places -/

namespace Digits

variable {base m n : Nat}

theorem digitChar_injective : ∀ m < 16, ∀ n < 16, Nat.digitChar m = Nat.digitChar n → m = n := by
  decide

theorem exists_of_mem_toDigits (large : 1 < base) {c : Char} (member : c ∈ Nat.toDigits base n) :
    ∃ d < base, c = Nat.digitChar d := by
  induction n using Nat.strong_induction_on with
  | _ n ih =>
      rw [Nat.toDigits_eq_if large] at member
      split at member
      · exact ⟨n, ‹_›, List.mem_singleton.mp member⟩
      · rcases List.mem_append.mp member with front | last
        · exact ih (n / base) (Nat.div_lt_self (by omega) large) front
        · exact ⟨n % base, Nat.mod_lt _ (by omega), List.mem_singleton.mp last⟩

/-- A number is told by its digits. -/
theorem toDigits_injective (large : 1 < base) (small : base ≤ 16)
    (same : Nat.toDigits base m = Nat.toDigits base n) : m = n := by
  induction m using Nat.strong_induction_on generalizing n with
  | _ m ih =>
      have longer (k : Nat) (d e : Char) : Nat.toDigits base k ++ [d] ≠ [e] := by
        simp [List.append_eq_singleton_iff, Nat.toDigits_ne_nil]
      have digit (k : Nat) : k % base < 16 := Nat.lt_of_lt_of_le (Nat.mod_lt _ (by omega)) small
      rw [Nat.toDigits_eq_if large, Nat.toDigits_eq_if (n := n) large] at same
      split at same <;> split at same
      · exact digitChar_injective m (by omega) n (by omega) (List.cons.inj same).1
      · exact absurd same.symm (longer _ _ _)
      · exact absurd same (longer _ _ _)
      · obtain ⟨front, last⟩ := List.append_inj' same rfl
        have sameFront := ih (m / base) (Nat.div_lt_self (by omega) large) front
        have sameLast := digitChar_injective _ (digit m) _ (digit n) (List.cons.inj last).1
        rw [← Nat.div_add_mod m base, sameFront, sameLast, Nat.div_add_mod]

end Digits

/-- A number ends where its digits do. -/
theorem nat_append_inj {m n : Nat} {rest rest' : List Char}
    (stops : ∀ c ∈ rest.head?, c.isDigit = false) (stops' : ∀ c ∈ rest'.head?, c.isDigit = false)
    (same : (toString m).toList ++ rest = (toString n).toList ++ rest') : m = n ∧ rest = rest' := by
  have digits (k : Nat) : ∀ c ∈ (toString k).toList, c.isDigit = true := by
    intro c member
    rw [Nat.toString_eq_repr, Nat.toList_repr] at member
    exact Nat.isDigit_of_mem_toDigits (by decide) (by decide) member
  obtain ⟨sameDigits, behind⟩ := append_inj_of_stops (digits m) stops (digits n) stops' same
  simp only [Nat.toString_eq_repr, Nat.toList_repr] at sameDigits
  exact ⟨Digits.toDigits_injective (by decide) (by decide) sameDigits, behind⟩

/-- A colon ends the digits before it. -/
theorem stops_of_colon (tail : List Char) :
    ∀ c ∈ (":".toList ++ tail).head?, c.isDigit = false := by
  intro c first
  rw [← Option.some.inj first]
  decide

/-- A place, which shows a line and a column, ends where the digits of the column do. -/
theorem Position.text_append_inj {p q : Position} {rest rest' : List Char}
    (stops : ∀ c ∈ rest.head?, c.isDigit = false) (stops' : ∀ c ∈ rest'.head?, c.isDigit = false)
    (same : p.text.toList ++ rest = q.text.toList ++ rest') :
    p.line = q.line ∧ p.column = q.column ∧ rest = rest' := by
  simp only [Position.text, String.toList_append, List.append_assoc] at same
  obtain ⟨sameLine, behind⟩ := nat_append_inj (stops_of_colon _) (stops_of_colon _) same
  obtain ⟨sameColumn, further⟩ := nat_append_inj stops stops' (List.append_cancel_left behind)
  exact ⟨sameLine, sameColumn, further⟩

/-! ## Lines -/

/-- The text is these lines, each with the line feed that ends it. -/
structure Framed (lines : List (List UInt8)) (text : List UInt8) : Prop where
  text_eq : text = lines.flatMap (· ++ [Byte.lineFeed])
  oneLine : ∀ line ∈ lines, Byte.lineFeed ∉ line

namespace Framed

variable {lines others : List (List UInt8)} {text more : List UInt8}

theorem single {line : List UInt8} (oneLine : Byte.lineFeed ∉ line) :
    Framed [line] (line ++ [Byte.lineFeed]) :=
  ⟨by simp, by simpa using oneLine⟩

/-- A text without a line feed, and one behind it. -/
theorem encode {text : String} (oneLine : '\n' ∉ text.toList) :
    Framed [Utf8.encode text] (Utf8.encode (text ++ "\n")) := by
  rw [Utf8.encode_append, show Utf8.encode "\n" = [Byte.lineFeed] by decide]
  exact single fun member => oneLine ((Utf8.mem_encode_iff (by decide)).mp member)

theorem append (framed : Framed lines text) (also : Framed others more) :
    Framed (lines ++ others) (text ++ more) where
  text_eq := by rw [framed.text_eq, also.text_eq, List.flatMap_append]
  oneLine := List.forall_mem_append.mpr ⟨framed.oneLine, also.oneLine⟩

theorem flatMap {α : Type} {items : List α} {f : α → List (List UInt8)} {g : α → List UInt8}
    (each : ∀ a ∈ items, Framed (f a) (g a)) : Framed (items.flatMap f) (items.flatMap g) := by
  induction items with
  | nil => exact ⟨rfl, fun _ member => absurd member List.not_mem_nil⟩
  | cons a items ih =>
      obtain ⟨first, later⟩ := List.forall_mem_cons.mp each
      exact first.append (ih later)

/-- A text is framed in one way. -/
theorem unique (framed : Framed lines text) (also : Framed others text) : lines = others := by
  obtain ⟨rfl, oneLine⟩ := framed
  obtain ⟨same, oneLine'⟩ := also
  induction lines generalizing others with
  | nil =>
      cases others with
      | nil => rfl
      | cons other others => simp at same
  | cons line lines ih =>
      cases others with
      | nil => simp at same
      | cons other others =>
          simp only [List.flatMap_cons, List.append_assoc, List.singleton_append] at same
          obtain ⟨first, later⟩ := List.forall_mem_cons.mp oneLine
          obtain ⟨first', later'⟩ := List.forall_mem_cons.mp oneLine'
          obtain ⟨rfl, behind⟩ := line_inj first (atLineEnd_lineFeed _) first'
            (atLineEnd_lineFeed _) same
          rw [ih later (List.cons.inj behind).2 later']

end Framed

end Lexis
