/-
# Lexis.Proofs.LongestMatch -- each token is the longest that its first byte allows

The first byte of a token chooses one of three languages: numbers, words, or
marks, whose words are the spellings of the kinds of punctuation.  The token is
the longest word of that language that the text begins with there
(`LongestPrefix`), and a longest one is the only one (`LongestPrefix.unique`).  A
word is a keyword exactly when a kind of keyword is spelled like it, and a byte
is unknown exactly when it begins no mark.  The languages and the first bytes are
told by the lists `Byte.digits`, `Byte.nameStarts` and `Byte.nameBytes`.

`longest_match` says this of every token of every run.
-/
import Lexis.Proofs.Pieces
import Mathlib.Data.List.Basic

namespace Lexis

set_option autoImplicit false

/-- The longest word of a language that a text begins with. -/
structure LongestPrefix (language : List UInt8 → Prop) (word text : List UInt8) : Prop where
  begins : word <+: text
  mem : language word
  longest : ∀ other, language other → other <+: text → other.length ≤ word.length

theorem LongestPrefix.unique {language : List UInt8 → Prop} {word other text : List UInt8}
    (first : LongestPrefix language word text) (second : LongestPrefix language other text) :
    word = other :=
  (List.prefix_of_prefix_length_le first.begins second.begins
    (second.longest word first.mem first.begins)).eq_of_length_le
      (first.longest other second.mem second.begins)

/-! ## The languages -/

/-- Digits, and after them perhaps a point and more digits. -/
inductive IsNumber : List UInt8 → Prop
  | whole {digits : List UInt8} (isDigits : Digits digits) : IsNumber digits
  | decimal {whole fraction : List UInt8} (wholeDigits : Digits whole)
      (fractionDigits : Digits fraction) : IsNumber (whole ++ Byte.dot :: fraction)

def IsWord (word : List UInt8) : Prop :=
  ∀ b ∈ word, b ∈ Byte.nameBytes

/-- The bytes are the one spelling of the kind. -/
def Kind.Spells (k : Kind) (word : List UInt8) : Prop :=
  ∃ text, k.lexeme? = some text ∧ Utf8.encode text = word

def IsMark (word : List UInt8) : Prop :=
  ∃ k : Kind, k.isPunctuation = true ∧ k.Spells word

namespace Token

structure IsLongestNumber (t : Token) (text : List UInt8) : Prop where
  span : LongestPrefix IsNumber (t.span text) (text.drop t.position.offset)
  float64_iff : t.kind = .literal .float64 ↔ Byte.dot ∈ t.span text
  int32_iff : t.kind = .literal .int32 ↔ Byte.dot ∉ t.span text
  literal : t.literal? = some ⟨t.span text⟩

structure IsLongestWord (t : Token) (text : List UInt8) : Prop where
  span : LongestPrefix IsWord (t.span text) (text.drop t.position.offset)
  keyword_iff : ∀ k : Kind, k.isKeyword = true → (t.kind = k ↔ k.Spells (t.span text))
  identifier_iff : t.kind = .identifier ↔
    ∀ k : Kind, k.isKeyword = true → ¬ k.Spells (t.span text)

structure IsLongestMark (t : Token) (text : List UInt8) : Prop where
  mark_or_unknown : t.kind.isPunctuation = true ∨ t.kind = .unknown
  mark_iff : ∀ k : Kind, k.isPunctuation = true →
    (t.kind = k ↔ ∃ word, k.Spells word ∧ LongestPrefix IsMark word (text.drop t.position.offset))
  length_eq : ∀ word, LongestPrefix IsMark word (text.drop t.position.offset) →
    t.length = word.length
  unknown_iff : t.kind = .unknown ↔ ∀ word, IsMark word → ¬ word <+: text.drop t.position.offset
  length_unknown : t.kind = .unknown → t.length = 1

end Token

/-! ## Runs of bytes -/

/-- A run of bytes of a class that stops before what follows is what `takeWhile`
takes. -/
theorem takeWhile_append_of_stops {α : Type} {inClass : α → Bool} {word rest : List α}
    (all : ∀ b ∈ word, inClass b = true) (stops : ∀ b ∈ rest.head?, inClass b = false) :
    (word ++ rest).takeWhile inClass = word := by
  rw [List.takeWhile_append_of_pos all]
  cases rest with
  | nil => exact List.append_nil word
  | cons b tail =>
      rw [List.takeWhile_cons_of_neg (by rw [stops b rfl]; exact Bool.false_ne_true)]
      exact List.append_nil word

theorem length_le_of_stops {inClass : UInt8 → Bool} {word rest other : List UInt8}
    (all : ∀ b ∈ word, inClass b = true) (stops : ∀ b ∈ rest.head?, inClass b = false)
    (allOther : ∀ b ∈ other, inClass b = true) (begins : other <+: word ++ rest) :
    other.length ≤ word.length := by
  obtain ⟨tail, same⟩ := begins
  have taken := takeWhile_append_of_stops all stops
  rw [← same, List.takeWhile_append_of_pos allOther] at taken
  rw [← taken, List.length_append]
  exact Nat.le_add_right _ _

/-- A run of bytes, or of characters, of a class is the same however it was found. -/
theorem append_inj_of_stops {α : Type} {inClass : α → Bool} {word rest other rest' : List α}
    (all : ∀ b ∈ word, inClass b = true) (stops : ∀ b ∈ rest.head?, inClass b = false)
    (all' : ∀ b ∈ other, inClass b = true) (stops' : ∀ b ∈ rest'.head?, inClass b = false)
    (same : word ++ rest = other ++ rest') : word = other ∧ rest = rest' := by
  have taken := takeWhile_append_of_stops all stops
  rw [same, takeWhile_append_of_stops all' stops'] at taken
  subst taken
  exact ⟨rfl, List.append_cancel_left same⟩

theorem Digits.dot_notMem {digits : List UInt8} (isDigits : Digits digits) :
    Byte.dot ∉ digits := by
  intro member
  exact absurd (isDigits.isDigit _ member) (by decide)

theorem stops_of_point (tail : List UInt8) :
    ∀ b ∈ (Byte.dot :: tail).head?, Byte.isDigit b = false := by
  intro b first
  rw [← Option.some.inj first]
  decide

/-- The digits before a point are the same however they were found. -/
theorem whole_eq {whole other front back : List UInt8} (wholeDigits : Digits whole)
    (otherDigits : Digits other) (stops : ∀ b ∈ back.head?, Byte.isDigit b = false)
    (same : other ++ Byte.dot :: front = whole ++ back) :
    other = whole ∧ Byte.dot :: front = back :=
  append_inj_of_stops otherDigits.isDigit (stops_of_point front) wholeDigits.isDigit stops same

/-! ## First bytes -/

theorem Byte.isDigit_eq_false {b : UInt8} (starts : isNameStart b = true) : isDigit b = false := by
  have each : ∀ b : UInt8, isNameStart b = true → isDigit b = false :=
    forall_of_lt (by decide +kernel)
  exact each b starts

theorem isWord_iff {word : List UInt8} :
    IsWord word ↔ ∀ b ∈ word, Byte.isNameByte b = true :=
  forall₂_congr fun _ _ => Byte.isNameByte_iff.symm

theorem IsWord.ascii {word : List UInt8} (isWord : IsWord word) : ∀ b ∈ word, b < 0x80 := by
  have each : ∀ b ∈ Byte.nameBytes, b < 0x80 := by decide +kernel
  exact fun b member => each b (isWord b member)

/-- No mark has a byte that starts another lexeme. -/
theorem Punctuation.first_bytes (p : Punctuation) : ∀ b ∈ p.bytes,
    Byte.isDigit b = false ∧ Byte.isNameStart b = false ∧ b ≠ Byte.quote ∧
      b ≠ Byte.apostrophe := by
  cases p <;> decide +kernel

namespace Lexeme

/-- The first byte of each form of lexeme. -/
def StartsWith (b : UInt8) : Lexeme → Prop
  | .literal .int32 _ | .literal .float64 _ => Byte.isDigit b = true
  | .word _ => Byte.isNameStart b = true
  | .literal .string _ => b = Byte.quote
  | .literal .char _ => b = Byte.apostrophe
  | .punctuation _ | .unknown _ =>
      Byte.isDigit b = false ∧ Byte.isNameStart b = false ∧ b ≠ Byte.quote ∧ b ≠ Byte.apostrophe

variable {l : Lexeme} {e : Option LexicalError} {spelling rest : List UInt8} {b : UInt8}

theorem Spelled.startsWith (spelled : l.Spelled e spelling rest) (first : b ∈ spelling.head?) :
    l.StartsWith b := by
  cases spelled with
  | int32 isDigits => exact isDigits.isDigit b (List.mem_of_mem_head? first)
  | @float64 whole fraction _ wholeDigits =>
      rw [List.head?_append_of_ne_nil _ wholeDigits.1] at first
      exact wholeDigits.isDigit b (List.mem_of_mem_head? first)
  | word starts => exact Option.some.inj first ▸ starts
  | string | openString | char | openChar | emptyChar => exact (Option.some.inj first).symm
  | @mark mark => exact mark.first_bytes b (List.mem_of_mem_head? first)
  | unknown notDigit notName notQuote notApostrophe =>
      rw [← Option.some.inj first]
      exact ⟨notDigit, notName, notQuote, notApostrophe⟩

namespace StartsWith

theorem number (starts : l.StartsWith b) (digit : Byte.isDigit b = true) :
    ∃ form text, (form = .int32 ∨ form = .float64) ∧ l = .literal form text := by
  cases l with
  | literal form text =>
      cases form with
      | int32 => exact ⟨_, text, .inl rfl, rfl⟩
      | float64 => exact ⟨_, text, .inr rfl, rfl⟩
      | string | char =>
          rw [starts] at digit
          exact absurd digit (by decide)
  | word =>
      rw [Byte.isDigit_eq_false starts] at digit
      exact Bool.noConfusion digit
  | punctuation | unknown =>
      rw [starts.1] at digit
      exact Bool.noConfusion digit

theorem word (starts : l.StartsWith b) (nameStart : Byte.isNameStart b = true) :
    ∃ text, l = .word text := by
  cases l with
  | word text => exact ⟨text, rfl⟩
  | literal form text =>
      cases form with
      | int32 | float64 =>
          have digit : Byte.isDigit b = true := starts
          rw [Byte.isDigit_eq_false nameStart] at digit
          exact Bool.noConfusion digit
      | string | char =>
          rw [starts] at nameStart
          exact absurd nameStart (by decide)
  | punctuation | unknown =>
      rw [starts.2.1] at nameStart
      exact Bool.noConfusion nameStart

theorem mark (starts : l.StartsWith b) (notDigit : Byte.isDigit b = false)
    (notName : Byte.isNameStart b = false) (notQuote : b ≠ Byte.quote)
    (notApostrophe : b ≠ Byte.apostrophe) : (∃ m, l = .punctuation m) ∨ ∃ x, l = .unknown x := by
  cases l with
  | punctuation m => exact .inl ⟨m, rfl⟩
  | unknown x => exact .inr ⟨x, rfl⟩
  | literal form text =>
      cases form with
      | int32 | float64 => exact absurd starts (Bool.eq_false_iff.mp notDigit)
      | string => exact absurd starts notQuote
      | char => exact absurd starts notApostrophe
  | word => exact absurd starts (Bool.eq_false_iff.mp notName)

end StartsWith

/-! ## Numbers -/

theorem longestPrefix_int32 {digits rest : List UInt8} (isDigits : Digits digits)
    (stops : ∀ b ∈ rest.head?, Byte.isDigit b = false)
    (noFraction : ∀ b tail, rest = Byte.dot :: b :: tail → Byte.isDigit b = false) :
    LongestPrefix IsNumber digits (digits ++ rest) := by
  refine ⟨List.prefix_append _ _, .whole isDigits, ?_⟩
  intro other isNumber begins
  cases isNumber with
  | whole otherDigits =>
      exact length_le_of_stops isDigits.isDigit stops otherDigits.isDigit begins
  | @decimal whole fraction wholeDigits fractionDigits =>
      obtain ⟨tail, same⟩ := begins
      rw [List.append_assoc, List.cons_append] at same
      obtain ⟨_, point⟩ := whole_eq isDigits wholeDigits stops same
      obtain ⟨d, more, split⟩ := List.exists_cons_of_ne_nil fractionDigits.1
      rw [split, List.cons_append] at point
      have digit := fractionDigits.isDigit d (split ▸ List.mem_cons_self)
      rw [noFraction d _ point.symm] at digit
      exact Bool.noConfusion digit

theorem longestPrefix_float64 {whole fraction rest : List UInt8} (wholeDigits : Digits whole)
    (fractionDigits : Digits fraction) (stops : ∀ b ∈ rest.head?, Byte.isDigit b = false) :
    LongestPrefix IsNumber (whole ++ Byte.dot :: fraction)
      (whole ++ Byte.dot :: fraction ++ rest) := by
  refine ⟨List.prefix_append _ _, .decimal wholeDigits fractionDigits, ?_⟩
  intro other isNumber begins
  rw [List.append_assoc, List.cons_append] at begins
  cases isNumber with
  | whole otherDigits =>
      have short :=
        length_le_of_stops wholeDigits.isDigit (stops_of_point _) otherDigits.isDigit begins
      rw [List.length_append]
      exact short.trans (Nat.le_add_right _ _)
  | @decimal otherWhole otherFraction otherWholeDigits otherFractionDigits =>
      obtain ⟨tail, same⟩ := begins
      rw [List.append_assoc, List.cons_append] at same
      obtain ⟨sameWhole, rest⟩ := whole_eq wholeDigits otherWholeDigits (stops_of_point _) same
      have short := length_le_of_stops fractionDigits.isDigit stops otherFractionDigits.isDigit
        ⟨tail, (List.cons.inj rest).2⟩
      rw [sameWhole, List.length_append, List.length_append, List.length_cons, List.length_cons]
      omega

end Lexeme

/-! ## Kinds by their spelling -/

namespace Kind

theorem spells_punctuation_iff {mark : Punctuation} {word : List UInt8} :
    (punctuation mark).Spells word ↔ mark.bytes = word := by
  simp [Spells, lexeme?, Punctuation.bytes]

theorem spells_keyword_iff {keyword : Keyword} {word : List UInt8} :
    (Kind.keyword keyword).Spells word ↔ keyword.bytes = word := by
  simp [Spells, lexeme?, Keyword.bytes]

theorem isPunctuation_iff {k : Kind} : k.isPunctuation = true ↔ ∃ mark, k = .punctuation mark := by
  cases k <;> simp [isPunctuation]

theorem isKeyword_iff {k : Kind} : k.isKeyword = true ↔ ∃ word, k = .keyword word := by
  cases k <;> simp [isKeyword]

end Kind

theorem isMark_iff {word : List UInt8} : IsMark word ↔ ∃ mark : Punctuation, mark.bytes = word := by
  constructor
  · rintro ⟨k, isPunctuation, spells⟩
    obtain ⟨mark, rfl⟩ := Kind.isPunctuation_iff.mp isPunctuation
    exact ⟨mark, Kind.spells_punctuation_iff.mp spells⟩
  · rintro ⟨mark, spelled⟩
    exact ⟨.punctuation mark, rfl, Kind.spells_punctuation_iff.mpr spelled⟩

/-- A word is the keyword that is spelled like it, or else a name. -/
theorem Lexeme.kind_content_word (known : Interner) (word : List UInt8) :
    ((Lexeme.word word).content known).1.kind =
      match Keyword.ofText? (Utf8.read word) with
      | some keyword => .keyword keyword
      | none => .identifier := by
  unfold content
  dsimp only
  cases Keyword.ofText? (Utf8.read word) <;> rfl

/-! ## What each form says of its text -/

namespace Lexeme.Spelled

variable {e : Option LexicalError} {spelling rest : List UInt8}

theorem number_longest {form : LiteralForm} {text : List UInt8}
    (spelled : (literal form text).Spelled e spelling rest)
    (isNumber : form = .int32 ∨ form = .float64) :
    e = none ∧ text = spelling ∧ LongestPrefix IsNumber spelling (spelling ++ rest) ∧
      (form = .float64 ↔ Byte.dot ∈ spelling) := by
  rcases isNumber with rfl | rfl
  · cases spelled with
    | int32 isDigits stops noFraction =>
        refine ⟨rfl, rfl, longestPrefix_int32 isDigits stops noFraction, ?_⟩
        simp [isDigits.dot_notMem]
  · cases spelled with
    | float64 wholeDigits fractionDigits stops =>
        refine ⟨rfl, rfl, longestPrefix_float64 wholeDigits fractionDigits stops, ?_⟩
        simp

theorem word_longest {text : List UInt8} (spelled : (Lexeme.word text).Spelled e spelling rest) :
    e = none ∧ text = spelling ∧ LongestPrefix IsWord spelling (spelling ++ rest) := by
  cases spelled with
  | @word b tail rest starts goesOn stops =>
      have inName : ∀ x ∈ b :: tail, Byte.isNameByte x = true :=
        List.forall_mem_cons.mpr ⟨Byte.isNameByte_of_isNameStart starts, goesOn⟩
      refine ⟨rfl, rfl, List.prefix_append _ _, isWord_iff.mpr inName, ?_⟩
      intro other isWord begins
      exact length_le_of_stops inName stops (isWord_iff.mp isWord) begins

theorem mark_longest {mark : Punctuation}
    (spelled : (punctuation mark).Spelled e spelling rest) :
    e = none ∧ mark.bytes = spelling ∧ LongestPrefix IsMark spelling (spelling ++ rest) := by
  cases spelled with
  | mark longest =>
      refine ⟨rfl, rfl, List.prefix_append _ _, isMark_iff.mpr ⟨mark, rfl⟩, ?_⟩
      intro other isMark begins
      obtain ⟨otherMark, rfl⟩ := isMark_iff.mp isMark
      exact longest otherMark begins

theorem unknown_noMark {byte : UInt8} (spelled : (Lexeme.unknown byte).Spelled e spelling rest) :
    e = some (.unknownByte byte) ∧ spelling = [byte] ∧
      ∀ word, IsMark word → ¬ word <+: spelling ++ rest := by
  cases spelled with
  | unknown _ _ _ _ noMark =>
      refine ⟨rfl, rfl, ?_⟩
      intro word isMark begins
      obtain ⟨mark, rfl⟩ := isMark_iff.mp isMark
      exact noMark mark begins

end Lexeme.Spelled

/-! ## Tokens -/

namespace Token

section Single

variable {t : Token} {text spelling rest : List UInt8} {l : Lexeme} {e : Option LexicalError}
  {known : Interner} {b : UInt8}

theorem isLongestNumber (content : t.content = (l.content known).1)
    (ahead : text.drop t.position.offset = spelling ++ rest) (span : t.span text = spelling)
    (spelled : l.Spelled e spelling rest) (first : b ∈ spelling.head?)
    (digit : Byte.isDigit b = true) : t.IsLongestNumber text := by
  obtain ⟨form, digits, isNumber, rfl⟩ := (spelled.startsWith first).number digit
  obtain ⟨_, rfl, longest, point⟩ := spelled.number_longest isNumber
  have isKind : t.kind = .literal form := congrArg Content.kind content
  rw [← span] at point
  refine ⟨?_, ?_, ?_, ?_⟩
  · rw [span, ahead]
    exact longest
  · rw [isKind, ← point]
    simp
  · rw [isKind, ← point]
    rcases isNumber with rfl | rfl <;> simp
  · rw [literal?, content, span]
    rfl

/-- What a word is, by the keyword that is spelled like it. -/
theorem keyword_or_identifier {word : List UInt8} (ascii : ∀ x ∈ word, x < 0x80)
    (isKind : t.kind = ((Lexeme.word word).content known).1.kind) :
    (∀ k : Kind, k.isKeyword = true → (t.kind = k ↔ k.Spells word)) ∧
      (t.kind = .identifier ↔ ∀ k : Kind, k.isKeyword = true → ¬ k.Spells word) := by
  rw [Lexeme.kind_content_word] at isKind
  rw [isKind]
  constructor
  · intro k isKeyword
    obtain ⟨keyword, rfl⟩ := Kind.isKeyword_iff.mp isKeyword
    rw [Kind.spells_keyword_iff, ← Keyword.ofText?_read_iff ascii]
    cases Keyword.ofText? (Utf8.read word) <;> simp
  · cases found : Keyword.ofText? (Utf8.read word) with
    | some keyword =>
        have spells := Kind.spells_keyword_iff.mpr ((Keyword.ofText?_read_iff ascii).mp found)
        simp only [reduceCtorEq, false_iff]
        intro noKeyword
        exact noKeyword _ rfl spells
    | none =>
        simp only [true_iff]
        intro k isKeyword spells
        obtain ⟨keyword, rfl⟩ := Kind.isKeyword_iff.mp isKeyword
        have alsoFound :=
          (Keyword.ofText?_read_iff ascii).mpr (Kind.spells_keyword_iff.mp spells)
        rw [found] at alsoFound
        cases alsoFound

theorem isLongestWord (content : t.content = (l.content known).1)
    (ahead : text.drop t.position.offset = spelling ++ rest) (span : t.span text = spelling)
    (spelled : l.Spelled e spelling rest) (first : b ∈ spelling.head?)
    (nameStart : Byte.isNameStart b = true) : t.IsLongestWord text := by
  obtain ⟨word, rfl⟩ := (spelled.startsWith first).word nameStart
  obtain ⟨_, rfl, longest⟩ := spelled.word_longest
  obtain ⟨keyword, identifier⟩ :=
    keyword_or_identifier longest.mem.ascii (congrArg Content.kind content)
  rw [← span] at keyword identifier
  refine ⟨?_, keyword, identifier⟩
  rw [span, ahead]
  exact longest

theorem isLongestMark_of_longest {mark : Punctuation} (isKind : t.kind = .punctuation mark)
    (length : t.length = mark.bytes.length)
    (found : LongestPrefix IsMark mark.bytes (text.drop t.position.offset)) :
    t.IsLongestMark text := by
  refine ⟨.inl (isKind ▸ rfl), ?_, ?_, ?_, ?_⟩
  · intro k isPunctuation
    obtain ⟨other, rfl⟩ := Kind.isPunctuation_iff.mp isPunctuation
    rw [isKind, Kind.punctuation.injEq]
    constructor
    · rintro rfl
      exact ⟨mark.bytes, Kind.spells_punctuation_iff.mpr rfl, found⟩
    · rintro ⟨word, spells, alsoFound⟩
      apply Punctuation.bytes_injective
      rw [Kind.spells_punctuation_iff.mp spells]
      exact found.unique alsoFound
  · intro word alsoFound
    rw [length, found.unique alsoFound]
  · rw [isKind]
    simp only [reduceCtorEq, false_iff]
    intro noMark
    exact noMark _ found.mem found.begins
  · rw [isKind]
    intro isUnknown
    cases isUnknown

theorem isLongestMark_of_none (isKind : t.kind = .unknown) (length : t.length = 1)
    (noMark : ∀ word, IsMark word → ¬ word <+: text.drop t.position.offset) :
    t.IsLongestMark text := by
  refine ⟨.inr isKind, ?_, ?_, iff_of_true isKind noMark, fun _ => length⟩
  · intro k isPunctuation
    rw [isKind]
    constructor
    · rintro rfl
      cases isPunctuation
    · rintro ⟨word, _, found⟩
      exact absurd found.begins (noMark word found.mem)
  · intro word found
    exact absurd found.begins (noMark word found.mem)

theorem isLongestMark (content : t.content = (l.content known).1)
    (length : t.length = spelling.length)
    (ahead : text.drop t.position.offset = spelling ++ rest)
    (spelled : l.Spelled e spelling rest) (first : b ∈ spelling.head?)
    (notDigit : Byte.isDigit b = false) (notName : Byte.isNameStart b = false)
    (notQuote : b ≠ Byte.quote) (notApostrophe : b ≠ Byte.apostrophe) : t.IsLongestMark text := by
  rcases (spelled.startsWith first).mark notDigit notName notQuote notApostrophe with
    ⟨mark, rfl⟩ | ⟨byte, rfl⟩
  · obtain ⟨_, rfl, longest⟩ := spelled.mark_longest
    exact isLongestMark_of_longest (congrArg Content.kind content) length (ahead ▸ longest)
  · obtain ⟨_, rfl, noMark⟩ := spelled.unknown_noMark
    exact isLongestMark_of_none (congrArg Content.kind content) length (ahead ▸ noMark)

end Single

end Token

/-- **Every token is the longest match** of the language that its first byte
chooses, in every run over every source. -/
theorem Source.longest_match {σ : Type} [Sink σ] (source : Source) (sink : σ) (known : Interner) :
    ∀ t ∈ (source.lex sink known).1.tokens,
      ∀ b ∈ (source.bytes.drop t.position.offset).head?,
        (b ∈ Byte.digits → t.IsLongestNumber source.bytes) ∧
        (b ∈ Byte.nameStarts → t.IsLongestWord source.bytes) ∧
        (b ∉ Byte.digits → b ∉ Byte.nameStarts → b ≠ Byte.quote →
          b ≠ Byte.apostrophe → t.IsLongestMark source.bytes) := by
  intro t member b first
  obtain ⟨e, stands⟩ := source.stands_of_mem_lex sink known member
  cases stands with
  | eof => simp [Token.eof] at first
  | @lexeme front spelling rest l e known split atToken spelled =>
      have offset := Position.offset_stepOverAll_start front
      let t : Token :=
        ⟨(l.content known).1, Position.start.stepOverAll front, spelling.length⟩
      have ahead := Token.drop_eq (t := t) split offset
      have span := Token.span_eq (t := t) split offset rfl
      have inSpelling : b ∈ spelling.head? := by
        rw [ahead, List.head?_append_of_ne_nil _ spelled.spelling_ne_nil] at first
        exact first
      rw [← Byte.isDigit_eq_false_iff, ← Byte.isNameStart_eq_false_iff, ← Byte.isDigit_iff,
        ← Byte.isNameStart_iff]
      exact ⟨Token.isLongestNumber rfl ahead span spelled inSpelling,
        Token.isLongestWord rfl ahead span spelled inSpelling,
        Token.isLongestMark rfl rfl ahead spelled inSpelling⟩

/-- One token of each form, with no space between them. -/
theorem Source.longest_match_adjacent :
    let source := Source.padded "adjacent"
      [0x33, 0x2E, 0x31, 0x69, 0x66, 0x3C, 0x3C, 0x3D, 0x3F] (by decide)
    ∃ number word mark unknown,
      (source.lex Backlog.empty .empty).1.tokens =
        [number, word, mark, unknown, .eof ⟨1, 10, 9⟩] ∧
      number.IsLongestNumber source.bytes ∧ word.IsLongestWord source.bytes ∧
      mark.IsLongestMark source.bytes ∧ unknown.IsLongestMark source.bytes := by
  intro source
  have run : (source.lex Backlog.empty .empty).1.tokens =
      [⟨.literal .float64 ⟨[0x33, 0x2E, 0x31]⟩, ⟨1, 1, 0⟩, 3⟩, ⟨.keyword .ifKw, ⟨1, 4, 3⟩, 2⟩,
        ⟨.punctuation .leftShiftEqual, ⟨1, 6, 5⟩, 3⟩, ⟨.unknown, ⟨1, 9, 8⟩, 1⟩,
        .eof ⟨1, 10, 9⟩] := by decide +kernel
  have longest := source.longest_match Backlog.empty .empty
  refine ⟨_, _, _, _, run, ?_, ?_, ?_, ?_⟩
  · exact (longest _ (by rw [run]; simp) 0x33 (by decide +kernel)).1 (by decide +kernel)
  · exact (longest _ (by rw [run]; simp) 0x69 (by decide +kernel)).2.1 (by decide +kernel)
  · exact (longest _ (by rw [run]; simp) 0x3C (by decide +kernel)).2.2 (by decide +kernel)
      (by decide +kernel) (by decide) (by decide)
  · exact (longest _ (by rw [run]; simp) 0x3F (by decide +kernel)).2.2 (by decide +kernel)
      (by decide +kernel) (by decide) (by decide)

end Lexis
