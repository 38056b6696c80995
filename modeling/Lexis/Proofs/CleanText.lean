/-
# Lexis.Proofs.CleanText -- the texts that are read without an error

`Clean text` tells byte by byte which texts are free of lexical errors: a byte of a
name, of a mark or of white space stands anywhere, a comment goes up to the end of its
line, and a string or a char literal is closed on its line.  Nothing else is clean.

A scanner takes names, numbers and marks at full length, and the grammar knows no
such tokens.  That makes no difference, since each of their bytes stands alone:
behind a gap a text is clean exactly when the whole is (`Trivia.clean_iff`), and
behind a lexeme exactly when the whole is and the lexeme has no error
(`Spelled.clean_iff`).  So a cut has no errors exactly when its text is clean
(`Cut.clean_iff`), and `errors_eq_zero_iff` says this of every run.
-/
import Lexis.Proofs.Tiling
import Lexis.Proofs.Unambiguous

namespace Lexis

set_option autoImplicit false

/-! ## The grammar -/

inductive Clean : List UInt8 → Prop
  | nil : Clean []
  | byte {b : UInt8} {text : List UInt8} (alone : b ∈ Byte.standalone)
      (more : Clean text) : Clean (b :: text)
  | comment {line text : List UInt8} (oneLine : Byte.lineFeed ∉ line) (stops : AtLineEnd text)
      (more : Clean text) : Clean (Byte.hash :: (line ++ text))
  | string {content text : List UInt8} (noQuote : Byte.quote ∉ content)
      (oneLine : Byte.lineFeed ∉ content) (more : Clean text) :
      Clean (Byte.quote :: (content ++ Byte.quote :: text))
  | char {b : UInt8} {text : List UInt8} (oneLine : b ≠ Byte.lineFeed) (more : Clean text) :
      Clean (Byte.apostrophe :: b :: Byte.apostrophe :: text)

namespace Byte

variable {b : UInt8}

theorem mem_standalone_iff :
    b ∈ standalone ↔ b ∈ whitespace ∨ b ∈ nameBytes ∨ b ∈ markBytes := by
  rw [standalone, List.mem_append, List.mem_append, or_assoc]

theorem mem_standalone_of_mem_digits (digit : b ∈ digits) : b ∈ standalone :=
  mem_standalone_iff.mpr (.inr (.inl (List.mem_append_right nameStarts digit)))

/-- What opens a comment, a string or a char literal stands nowhere alone. -/
theorem notMem_standalone : hash ∉ standalone ∧ quote ∉ standalone ∧ apostrophe ∉ standalone := by
  decide +kernel

end Byte

namespace Punctuation

theorem mem_markBytes (p : Punctuation) : ∀ b ∈ p.bytes, b ∈ Byte.markBytes := by
  have each : ∀ p ∈ all, ∀ b ∈ p.bytes, b ∈ Byte.markBytes := by decide +kernel
  exact each p p.mem_all

/-- Each byte of a mark is a mark by itself. -/
theorem exists_bytes_eq : ∀ b ∈ Byte.markBytes, ∃ mark : Punctuation, mark.bytes = [b] := by
  have inTable : ∀ b ∈ Byte.markBytes, ∃ mark ∈ all, mark.bytes = [b] := by decide +kernel
  intro b inMark
  obtain ⟨mark, _, spelled⟩ := inTable b inMark
  exact ⟨mark, spelled⟩

end Punctuation

/-! ## The item at the front -/

namespace Clean

variable {b : UInt8} {text : List UInt8}

theorem byte_iff (alone : b ∈ Byte.standalone) : Clean (b :: text) ↔ Clean text := by
  refine ⟨?_, .byte alone⟩
  intro clean
  cases clean with
  | byte _ more => exact more
  | comment => exact absurd alone Byte.notMem_standalone.1
  | string => exact absurd alone Byte.notMem_standalone.2.1
  | char => exact absurd alone Byte.notMem_standalone.2.2

theorem append_iff {word : List UInt8} (alone : ∀ b ∈ word, b ∈ Byte.standalone) :
    Clean (word ++ text) ↔ Clean text := by
  induction word with
  | nil => rfl
  | cons b word ih =>
      rw [List.cons_append, byte_iff (alone b List.mem_cons_self)]
      exact ih fun x member => alone x (List.mem_cons_of_mem b member)

theorem comment_iff {line : List UInt8} (oneLine : Byte.lineFeed ∉ line)
    (stops : AtLineEnd text) : Clean (Byte.hash :: (line ++ text)) ↔ Clean text := by
  refine ⟨?_, .comment oneLine stops⟩
  intro clean
  generalize whole : Byte.hash :: (line ++ text) = all at clean
  cases clean with
  | nil => cases whole
  | byte alone =>
      rw [← (List.cons.inj whole).1] at alone
      exact absurd alone Byte.notMem_standalone.1
  | comment oneLine' stops' more =>
      obtain ⟨_, rfl⟩ := line_inj oneLine stops oneLine' stops' (List.cons.inj whole).2
      exact more
  | string | char => exact absurd (List.cons.inj whole).1 (by decide)

/-- Behind an opening quote a clean text has its closing quote on the line. -/
theorem string_iff {content tail : List UInt8} (noQuote : Byte.quote ∉ content)
    (oneLine : Byte.lineFeed ∉ content) (stops : AtStringEnd tail) :
    Clean (Byte.quote :: (content ++ tail)) ↔ ∃ text, tail = Byte.quote :: text ∧ Clean text := by
  constructor
  · intro clean
    generalize whole : Byte.quote :: (content ++ tail) = all at clean
    cases clean with
    | nil => cases whole
    | byte alone =>
        rw [← (List.cons.inj whole).1] at alone
        exact absurd alone Byte.notMem_standalone.2.1
    | string noQuote' oneLine' more =>
        obtain ⟨_, rfl⟩ := string_inj noQuote oneLine stops noQuote' oneLine'
          (atStringEnd_quote _) (List.cons.inj whole).2
        exact ⟨_, rfl, more⟩
    | comment | char => exact absurd (List.cons.inj whole).1 (by decide)
  · rintro ⟨text, rfl, more⟩
    exact .string noQuote oneLine more

/-- Behind an apostrophe a clean text has one byte and an apostrophe. -/
theorem char_iff {tail : List UInt8} :
    Clean (Byte.apostrophe :: tail) ↔
      ∃ b text, b ≠ Byte.lineFeed ∧ tail = b :: Byte.apostrophe :: text ∧ Clean text := by
  constructor
  · intro clean
    cases clean with
    | byte alone => exact absurd alone Byte.notMem_standalone.2.2
    | char oneLine more => exact ⟨_, _, oneLine, rfl, more⟩
  · rintro ⟨b, text, oneLine, rfl, more⟩
    exact .char oneLine more

end Clean

/-! ## Gaps and lexemes at the front -/

theorem Trivia.clean_iff {atEnd : Bool} {gap rest : List UInt8} (trivia : Trivia atEnd gap)
    (ended : atEnd = true → rest = []) : Clean (gap ++ rest) ↔ Clean rest := by
  induction trivia with
  | nil => rfl
  | white isWhite _ ih =>
      rw [List.cons_append, Clean.byte_iff (Byte.mem_standalone_iff.mpr (.inl isWhite))]
      exact ih
  | @comment text gap oneLine _ ih =>
      rw [List.append_assoc, List.cons_append]
      exact (Clean.comment_iff oneLine (atLineEnd_lineFeed _)).trans ih
  | @lastComment text isEnd oneLine =>
      rw [ended isEnd, List.cons_append]
      exact Clean.comment_iff oneLine fun b first => absurd first (by simp)

/-- A byte that starts no token and no trivia begins no clean text. -/
theorem not_clean_cons {b : UInt8} {rest : List UInt8}
    (notTrivia : Byte.startsTrivia b = false) (notDigit : Byte.isDigit b = false)
    (notName : Byte.isNameStart b = false) (notQuote : b ≠ Byte.quote)
    (notApostrophe : b ≠ Byte.apostrophe)
    (noMark : ∀ mark : Punctuation, ¬ mark.bytes <+: b :: rest) : ¬ Clean (b :: rest) := by
  obtain ⟨notWhite, notHash⟩ := Byte.startsTrivia_eq_false_iff.mp notTrivia
  intro clean
  cases clean with
  | byte alone =>
      have noName : b ∉ Byte.nameBytes := by
        simp [← Byte.isNameByte_iff, Byte.isNameByte, notName, notDigit]
      have inMark := ((Byte.mem_standalone_iff.mp alone).resolve_left notWhite).resolve_left noName
      obtain ⟨mark, spelled⟩ := Punctuation.exists_bytes_eq b inMark
      refine noMark mark ?_
      rw [spelled]
      exact List.prefix_append [b] rest
  | comment => exact notHash rfl
  | string => exact notQuote rfl
  | char => exact notApostrophe rfl

theorem Lexeme.Spelled.clean_iff {l : Lexeme} {e : Option LexicalError}
    {spelling rest : List UInt8} (spelled : l.Spelled e spelling rest)
    (atToken : ∀ b ∈ spelling.head?, Byte.startsTrivia b = false) :
    Clean (spelling ++ rest) ↔ e = none ∧ Clean rest := by
  cases spelled with
  | int32 isDigits =>
      have alone := fun b member => Byte.mem_standalone_of_mem_digits (isDigits.2 b member)
      simp only [Clean.append_iff alone, true_and]
  | @float64 whole fraction _ wholeDigits fractionDigits =>
      have alone : ∀ b ∈ whole ++ Byte.dot :: fraction, b ∈ Byte.standalone := by
        intro b member
        rcases List.mem_append.mp member with inWhole | inFraction
        · exact Byte.mem_standalone_of_mem_digits (wholeDigits.2 b inWhole)
        · rcases List.mem_cons.mp inFraction with rfl | inDigits
          · decide +kernel
          · exact Byte.mem_standalone_of_mem_digits (fractionDigits.2 b inDigits)
      simp only [Clean.append_iff alone, true_and]
  | @word b tail _ starts goesOn =>
      have inName : ∀ x ∈ b :: tail, Byte.isNameByte x = true :=
        List.forall_mem_cons.mpr ⟨Byte.isNameByte_of_isNameStart starts, goesOn⟩
      have alone : ∀ x ∈ b :: tail, x ∈ Byte.standalone := fun x member =>
        Byte.mem_standalone_iff.mpr (.inr (.inl (Byte.isNameByte_iff.mp (inName x member))))
      simp only [Clean.append_iff alone, true_and]
  | string noQuote oneLine =>
      rw [List.append_assoc, List.cons_append, List.singleton_append,
        Clean.string_iff noQuote oneLine (atStringEnd_quote rest)]
      simp
  | openString noQuote oneLine stops =>
      rw [List.cons_append, Clean.string_iff noQuote oneLine stops.atStringEnd]
      refine iff_of_false ?_ (fun both => Option.some_ne_none _ both.1)
      rintro ⟨text, rfl, _⟩
      exact absurd (stops Byte.quote rfl) (by decide)
  | @char b _ oneLine =>
      rw [List.cons_append, Clean.char_iff]
      simp [oneLine]
  | @openChar b _ oneLine stops =>
      rw [List.cons_append, Clean.char_iff]
      refine iff_of_false ?_ (fun both => Option.some_ne_none _ both.1)
      rintro ⟨x, text, _, same, _⟩
      apply stops
      rw [show rest = Byte.apostrophe :: text from (List.cons.inj same).2]
      rfl
  | emptyChar stops =>
      rw [List.cons_append, Clean.char_iff]
      refine iff_of_false ?_ (fun both => Option.some_ne_none _ both.1)
      rintro ⟨x, text, oneLine, same, _⟩
      apply oneLine
      apply stops
      rw [show rest = x :: Byte.apostrophe :: text from same]
      rfl
  | @mark mark =>
      have alone : ∀ b ∈ mark.bytes, b ∈ Byte.standalone := fun b member =>
        Byte.mem_standalone_iff.mpr (.inr (.inr (mark.mem_markBytes b member)))
      simp only [Clean.append_iff alone, true_and]
  | @unknown b _ notDigit notName notQuote notApostrophe noMark =>
      refine iff_of_false ?_ (fun both => Option.some_ne_none _ both.1)
      exact not_clean_cons (atToken b rfl) notDigit notName notQuote notApostrophe noMark

/-! ## Whole texts -/

/-- A text is clean exactly when no piece of its cut has an error. -/
theorem Cut.clean_iff {text last : List UInt8} {pieces : List Piece}
    (cut : Cut text pieces last) : Clean text ↔ ∀ p ∈ pieces, p.error = none := by
  induction cut with
  | @done last trivia =>
      have clean : Clean (last ++ []) := (trivia.clean_iff fun _ => rfl).mpr .nil
      rw [List.append_nil] at clean
      exact iff_of_true clean (by simp)
  | @piece p rest pieces last trivia atToken spelled _ ih =>
      rw [trivia.clean_iff fun ended => Bool.noConfusion ended, spelled.clean_iff atToken, ih,
        List.forall_mem_cons]

theorem Piece.diagnostics_eq_nil_iff {start : Position} {pieces : List Piece} :
    diagnostics start pieces = [] ↔ ∀ p ∈ pieces, p.error = none := by
  induction pieces generalizing start with
  | nil => simp [diagnostics]
  | cons p pieces ih => simp [diagnostics, diagnostic?, ih]

/-- **A run reports no error exactly when its text is clean**, for every sink and
every names. -/
theorem Source.errors_eq_zero_iff {σ : Type} [Sink σ] (source : Source) (sink : σ)
    (known : Interner) :
    ((source.lex sink known).1.errors = 0 ↔ Clean source.bytes) ∧
      ((source.lex sink known).1.hasErrors = false ↔ Clean source.bytes) := by
  obtain ⟨pieces, last, cut, run⟩ := source.lex_of_cut sink known
  have noErrors : Clean source.bytes ↔ Piece.diagnostics .start pieces = [] :=
    cut.clean_iff.trans Piece.diagnostics_eq_nil_iff.symm
  rw [noErrors, run]
  simp [Lexed.hasErrors]

-- A quote inside a comment opens nothing; behind a line feed it does.
example :
    (((Source.padded "comment" [0x23, 0x22, 0x0A] (by decide)).lex Backlog.empty .empty).1.errors,
      ((Source.padded "string" [0x23, 0x0A, 0x22] (by decide)).lex Backlog.empty .empty).1.errors) =
      (0, 1) := by
  decide +kernel

end Lexis
