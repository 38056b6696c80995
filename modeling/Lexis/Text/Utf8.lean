/-
# Lexis.Text.Utf8 -- text as bytes, and bytes as text

`encode` is the UTF-8 form of a text; `decode?` reads it back and refuses
everything else (`decode?_encode`, `encode_of_decode?`).  Sources need not be
UTF-8, so `read` always answers: the text itself where the bytes are UTF-8
(`read_encode`), and otherwise the text with U+FFFD for every ill-formed part.

An ill-formed part is as long as it can be while it still begins some
character: a lead byte announces the ranges of the bytes to come (`lead?`), and
the part ends before the first byte outside its range.
-/

namespace Lexis.Utf8

set_option autoImplicit false

def encode (text : String) : List UInt8 :=
  text.toList.flatMap String.utf8EncodeChar

/-- The text of UTF-8 bytes. -/
def decode? (bytes : List UInt8) : Option String :=
  String.fromUTF8? bytes.toByteArray

/-! ## Ill-formed bytes -/

/-- The lowest and the highest byte allowed at a place. -/
abbrev ByteRange := UInt8 × UInt8

def tail : ByteRange := (0x80, 0xBF)

/-- What a first byte contributes to its character, and what must follow it.
The narrow ranges keep out overlong forms, surrogates and values too large. -/
def lead? (b : UInt8) : Option (Nat × List ByteRange) :=
  if b < 0x80 then some (b.toNat, [])
  else if 0xC2 ≤ b && b ≤ 0xDF then some (b.toNat % 32, [tail])
  else if b == 0xE0 then some (0, [(0xA0, 0xBF), tail])
  else if b == 0xED then some (13, [(0x80, 0x9F), tail])
  else if 0xE1 ≤ b && b ≤ 0xEF then some (b.toNat % 16, [tail, tail])
  else if b == 0xF0 then some (0, [(0x90, 0xBF), tail, tail])
  else if 0xF1 ≤ b && b ≤ 0xF3 then some (b.toNat % 8, [tail, tail, tail])
  else if b == 0xF4 then some (4, [(0x80, 0x8F), tail, tail])
  else none

/-- U+FFFD stands for what is no character. -/
def replacement : Char := Char.ofNat 0xFFFD

/-- A repair under way: the text so far, and the character begun but not ended,
as its value so far and the ranges of the bytes that it still needs. -/
structure Repair where
  text : String
  begun : Option (Nat × List ByteRange)

namespace Repair

/-- A byte that starts a character, or is ill-formed by itself. -/
def first (text : String) (b : UInt8) : Repair :=
  match lead? b with
  | none => ⟨text.push replacement, none⟩
  | some (value, []) => ⟨text.push (Char.ofNat value), none⟩
  | some (value, due) => ⟨text, some (value, due)⟩

/-- A byte outside its range ends an ill-formed part and starts anew. -/
def step (r : Repair) (b : UInt8) : Repair :=
  match r.begun with
  | none | some (_, []) => first r.text b
  | some (value, (low, high) :: due) =>
      if low ≤ b && b ≤ high then
        let value := value * 64 + b.toNat % 64
        if due.isEmpty then ⟨r.text.push (Char.ofNat value), none⟩
        else ⟨r.text, some (value, due)⟩
      else first (r.text.push replacement) b

def finish (r : Repair) : String :=
  match r.begun with
  | none => r.text
  | some _ => r.text.push replacement

end Repair

/-- The text with every ill-formed part replaced. -/
def repair (bytes : List UInt8) : String :=
  (bytes.foldl Repair.step ⟨"", none⟩).finish

/-- The text of any bytes. -/
def read (bytes : List UInt8) : String :=
  (decode? bytes).getD (repair bytes)

/-! ## Laws -/

theorem toByteArray_encode (text : String) : (encode text).toByteArray = text.toByteArray := by
  rw [← String.ofList_toList (s := text), String.toByteArray_ofList, List.utf8Encode, encode,
    String.toList_ofList]

@[simp] theorem decode?_encode (text : String) : decode? (encode text) = some text := by
  simp [decode?, toByteArray_encode, String.fromUTF8?, text.isValidUTF8, String.fromUTF8]

theorem encode_of_decode? {bytes : List UInt8} {text : String}
    (reads : decode? bytes = some text) : encode text = bytes := by
  unfold decode? String.fromUTF8? at reads
  split at reads
  · cases reads
    have same : (encode (String.fromUTF8 bytes.toByteArray ‹_›)).toByteArray =
        bytes.toByteArray := toByteArray_encode _
    exact List.toByteArray_inj.mp same
  · cases reads

theorem encode_injective {a b : String} (same : encode a = encode b) : a = b := by
  have := decode?_encode a
  rw [same, decode?_encode] at this
  exact (Option.some.inj this).symm

@[simp] theorem read_encode (text : String) : read (encode text) = text := by
  simp [read]

@[simp] theorem encode_append (a b : String) : encode (a ++ b) = encode a ++ encode b := by
  simp [encode]

end Lexis.Utf8
