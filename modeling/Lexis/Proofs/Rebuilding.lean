/-
# Lexis.Proofs.Rebuilding -- a token and the names tell the bytes that it covers

A token keeps a content and a length, and its bytes stay in the source.  They can be
spelled again from the token and the interner alone (`Token.spelling?`): a keyword or a
mark by its kind, an identifier by the text of its symbol, a number by its literal, and a
string or a char literal by its delimiters around its literal, where the length tells
whether there is a second one.  Only of an unknown byte the token keeps nothing.

`Shows.spelling?_eq` says so of every form of lexeme, and `rebuild_eq` puts the spellings
between the gaps and gets the text back.  `tokens_spell` says both of every run, for the
interner that the run leaves and for all that becomes of it.
-/
import Lexis.Proofs.Naming
import Lexis.Proofs.Reports
import Lexis.Proofs.Tiling
import Lexis.Proofs.Unambiguous

namespace Lexis

set_option autoImplicit false

namespace Token

/-- Content behind its delimiter, and before a second one if it covers so many bytes. -/
def delimited (delimiter : UInt8) (content : List UInt8) (length : Nat) : List UInt8 :=
  delimiter :: content ++ if length = content.length + 2 then [delimiter] else []

/-- The bytes of a token, without the text that it was taken from. -/
def spelling? (known : Interner) (t : Token) : Option (List UInt8) :=
  match t.content with
  | .eof => some []
  | .unknown => none
  | .literal .int32 content | .literal .float64 content => some content.bytes
  | .literal .string content => some (delimited Byte.quote content.bytes t.length)
  | .literal .char content => some (delimited Byte.apostrophe content.bytes t.length)
  | .identifier symbol => (known.resolve? symbol).map Utf8.encode
  | .keyword _ | .punctuation _ => t.kind.lexeme?.map Utf8.encode

/-- The bytes that the unknown tokens cover. -/
def unknownBytes (text : List UInt8) (tokens : List Token) : List UInt8 :=
  (tokens.filter (·.kind = .unknown)).flatMap fun t => t.span text

/-- The spelling of each token, where an unknown one takes the next unknown byte. -/
def spellings (known : Interner) (unknown : List UInt8) : List Token → List (List UInt8)
  | [] => []
  | t :: tokens =>
      match t.spelling? known with
      | some spelling => spelling :: spellings known unknown tokens
      | none => unknown.take 1 :: spellings known (unknown.drop 1) tokens

/-- The text that has these gaps, each before its token. -/
def rebuild (known : Interner) (gaps : List (List UInt8)) (unknown : List UInt8)
    (tokens : List Token) : List UInt8 :=
  (List.zipWith (· ++ ·) gaps (spellings known unknown tokens)).flatten

/-- The token, the names and the text tell the same. -/
structure Spells (text : List UInt8) (known : Interner) (t : Token) : Prop where
  spelling?_eq : t.kind ≠ .unknown → t.spelling? known = some (t.span text)
  string : ∀ content, t.content = .literal .string content →
    Byte.quote ∉ content.bytes ∧ Byte.lineFeed ∉ content.bytes
  char : ∀ content, t.content = .literal .char content →
    content.bytes.length ≤ 1 ∧ Byte.lineFeed ∉ content.bytes
  length_unknown : t.kind = .unknown → (t.span text).length = 1

end Token

/-! ## One token -/

namespace Lexeme.Spelled

variable {content : List UInt8} {e : Option LexicalError} {spelling rest : List UInt8}

theorem delimited_string (spelled : (Lexeme.literal .string content).Spelled e spelling rest) :
    Token.delimited Byte.quote content spelling.length = spelling := by
  obtain ⟨_, _, ⟨_, closed⟩ | ⟨_, stopped, _⟩⟩ := spelled.string_content
  · have length : spelling.length = content.length + 2 := by simp [closed]
    rw [Token.delimited, if_pos length, closed]
  · have length : spelling.length ≠ content.length + 2 := by simp [stopped]
    rw [Token.delimited, if_neg length, List.append_nil, stopped]

theorem delimited_char (spelled : (Lexeme.literal .char content).Spelled e spelling rest) :
    Token.delimited Byte.apostrophe content spelling.length = spelling := by
  obtain ⟨b, _, rfl, _, rfl⟩ | ⟨b, _, rfl, _, rfl, _⟩ | ⟨rfl, _, rfl, _⟩ := spelled.char_content
  all_goals rfl

/-- A char literal holds at most one byte, and no line feed. -/
theorem char_short (spelled : (Lexeme.literal .char content).Spelled e spelling rest) :
    content.length ≤ 1 ∧ Byte.lineFeed ∉ content := by
  obtain ⟨b, oneLine, rfl, _⟩ | ⟨b, oneLine, rfl, _⟩ | ⟨rfl, _⟩ := spelled.char_content
  · exact ⟨Nat.le_refl 1, by simpa using oneLine.symm⟩
  · exact ⟨Nat.le_refl 1, by simpa using oneLine.symm⟩
  · exact ⟨Nat.zero_le 1, List.not_mem_nil⟩

end Lexeme.Spelled

theorem Lexeme.eq_unknown_of_kind {l : Lexeme} {known : Interner}
    (isUnknown : (l.content known).1.kind = .unknown) : ∃ byte, l = .unknown byte := by
  cases l with
  | unknown byte => exact ⟨byte, rfl⟩
  | word bytes =>
      rw [kind_content_word] at isUnknown
      split at isUnknown <;> cases isUnknown
  | literal | punctuation => cases isUnknown

namespace Token

variable {text : List UInt8} {known : Interner} {t : Token} {p : Piece}

theorem spelling?_eq_none (isUnknown : t.kind = .unknown) : t.spelling? known = none := by
  obtain ⟨content, position, length⟩ := t
  cases content with
  | unknown => rfl
  | _ => cases isUnknown

namespace Shows

theorem kind_eq (shown : t.Shows text known p) :
    t.kind = (p.lexeme.content .empty).1.kind := by
  cases named : p.lexeme.name? with
  | some name =>
      obtain ⟨symbol, content, _⟩ := shown.exists_symbol named
      rw [kind, content, Lexeme.content_of_name?_eq_some named]
      rfl
  | none => rw [kind, shown.content_eq named]

/-- A literal token has a literal lexeme, with the same bytes. -/
theorem lexeme_eq (shown : t.Shows text known p) {form : LiteralForm} {content : Literal}
    (isLiteral : t.content = .literal form content) :
    p.lexeme = .literal form content.bytes := by
  have isKind : t.kind = .literal form := by rw [kind, isLiteral, Content.kind]
  obtain ⟨bytes, isLexeme⟩ := Lexeme.eq_literal_of_kind (shown.kind_eq.symm.trans isKind)
  have same := shown.content_eq (by rw [isLexeme]; rfl)
  rw [isLiteral, isLexeme] at same
  rw [isLexeme, (Content.literal.inj same).2]

theorem spelling?_eq (shown : t.Shows text known p) (isKnown : t.kind ≠ .unknown) :
    t.spelling? known = some (t.span text) := by
  obtain ⟨rest, spelled⟩ := shown.spelled
  have length := shown.length
  rw [shown.span]
  cases named : p.lexeme.name? with
  | some name =>
      obtain ⟨symbol, content, resolves⟩ := shown.exists_symbol named
      rw [spelling?, content]
      simp only [resolves, Option.map_some, spelled.encode_name named]
  | none =>
      have content := shown.content_eq named
      obtain ⟨c, position, size⟩ := t
      obtain ⟨gap, spelling, l, e⟩ := p
      dsimp only at spelled length named content ⊢
      subst content length
      cases l with
      | literal form bytes =>
          cases form with
          | int32 =>
              obtain ⟨_, rfl, _⟩ := spelled.number_longest (.inl rfl)
              rfl
          | float64 =>
              obtain ⟨_, rfl, _⟩ := spelled.number_longest (.inr rfl)
              rfl
          | string => exact congrArg some spelled.delimited_string
          | char => exact congrArg some spelled.delimited_char
      | word bytes =>
          obtain ⟨_, rfl, longest⟩ := spelled.word_longest
          obtain ⟨keyword, found⟩ := Lexeme.exists_keyword named
          have spells := (Keyword.ofText?_read_iff longest.mem.ascii).mp found
          rw [Lexeme.content, found]
          exact congrArg some spells
      | punctuation mark =>
          obtain ⟨_, spells, _⟩ := spelled.mark_longest
          exact congrArg some spells
      | unknown => exact absurd rfl isKnown

theorem spells (shown : t.Shows text known p) : t.Spells text known where
  spelling?_eq := shown.spelling?_eq
  string content isString := by
    obtain ⟨rest, spelled⟩ := shown.spelled
    rw [shown.lexeme_eq isString] at spelled
    obtain ⟨noQuote, oneLine, _⟩ := spelled.string_content
    exact ⟨noQuote, oneLine⟩
  char content isChar := by
    obtain ⟨rest, spelled⟩ := shown.spelled
    rw [shown.lexeme_eq isChar] at spelled
    exact spelled.char_short
  length_unknown isUnknown := by
    obtain ⟨rest, spelled⟩ := shown.spelled
    obtain ⟨byte, isLexeme⟩ := Lexeme.eq_unknown_of_kind (shown.kind_eq.symm.trans isUnknown)
    rw [isLexeme] at spelled
    rw [shown.span, spelled.unknown_noMark.2.1]
    rfl

end Shows

theorem spells_eof (text : List UInt8) (known : Interner) (position : Position) :
    (Token.eof position).Spells text known where
  spelling?_eq _ := rfl
  string _ isString := by cases isString
  char _ isChar := by cases isChar
  length_unknown isUnknown := by cases isUnknown

/-! ## All tokens -/

variable {tokens : List Token}

theorem spellings_eq (each : ∀ t ∈ tokens, t.Spells text known) :
    spellings known (unknownBytes text tokens) tokens = tokens.map fun t => t.span text := by
  induction tokens with
  | nil => rfl
  | cons t tokens ih =>
      obtain ⟨here, later⟩ := List.forall_mem_cons.mp each
      by_cases isUnknown : t.kind = .unknown
      · have unknown : unknownBytes text (t :: tokens) =
            t.span text ++ unknownBytes text tokens := by
          simp [unknownBytes, isUnknown]
        have one := here.length_unknown isUnknown
        rw [spellings, spelling?_eq_none isUnknown, unknown, List.map_cons]
        dsimp only
        rw [List.take_left' one, List.drop_left' one, ih later]
      · have unknown : unknownBytes text (t :: tokens) = unknownBytes text tokens := by
          simp [unknownBytes, isUnknown]
        rw [spellings, here.spelling?_eq isUnknown, unknown, List.map_cons]
        dsimp only
        rw [ih later]

/-- The spellings between the gaps are the text. -/
theorem rebuild_eq (tiles : Tiles text tokens) (each : ∀ t ∈ tokens, t.Spells text known) :
    rebuild known (Token.gaps text 0 tokens) (unknownBytes text tokens) tokens = text := by
  rw [rebuild, spellings_eq each, List.zipWith_map_right]
  exact tiles.rebuilt

end Token

/-- **Every token of a run tells its bytes**, and all of them with the gaps and the unknown
bytes tell the source: for an interner after any calls, the run, and any calls after it. -/
theorem Source.tokens_spell {σ : Type} [Sink σ] (source : Source) (sink : σ)
    (prior later : List Interner.Call) :
    let lexed := source.lex sink (Interner.empty.after prior)
    let known := lexed.2.2.after later
    (∀ t ∈ lexed.1.tokens, t.Spells source.bytes known) ∧
      Token.rebuild known (Token.gaps source.bytes 0 lexed.1.tokens)
        (Token.unknownBytes source.bytes lexed.1.tokens) lexed.1.tokens = source.bytes := by
  intro lexed known
  have sound := Interner.sound_empty.after prior
  have each : ∀ t ∈ lexed.1.tokens, t.Spells source.bytes known := by
    intro t member
    rcases source.shows_of_mem_lex sink sound member with ⟨p, shown⟩ | ⟨position, rfl⟩
    · exact (shown.mono (lexed.2.2.grows_after later)).spells
    · exact Token.spells_eof _ _ position
  have tiles : Tiles source.bytes lexed.1.tokens := by
    obtain ⟨pieces, last, cut, run⟩ := source.lex_of_cut sink (Interner.empty.after prior)
    rw [show lexed = _ from run]
    exact (cut.tiled [] _).tiles
  exact ⟨each, Token.rebuild_eq tiles each⟩

/-- A name, an unknown byte, a keyword and a string that is never closed. -/
theorem Source.tokens_spell_unclosed :
    let source := Source.padded "mixed" [0x61, 0x3F, 0x69, 0x66, 0x20, 0x22, 0x62] (by decide)
    let lexed := source.lex Backlog.empty (Interner.empty.after [.intern "b", .release])
    let known := lexed.2.2.after [.intern "c"]
    let string : Token := ⟨.literal .string ⟨[0x62]⟩, ⟨1, 6, 5⟩, 2⟩
    string ∈ lexed.1.tokens ∧ string.spelling? known = some (string.span source.bytes) ∧
      Token.rebuild known [[], [], [], [0x20], []] [0x3F] lexed.1.tokens = source.bytes := by
  intro source lexed known string
  obtain ⟨each, rebuilds⟩ :=
    source.tokens_spell Backlog.empty [.intern "b", .release] [.intern "c"]
  have member : string ∈ lexed.1.tokens := by decide +kernel
  have gaps : Token.gaps source.bytes 0 lexed.1.tokens = [[], [], [], [0x20], []] := by
    decide +kernel
  have unknown : Token.unknownBytes source.bytes lexed.1.tokens = [0x3F] := by decide +kernel
  rw [gaps, unknown] at rebuilds
  exact ⟨member, (each string member).spelling?_eq (by decide), rebuilds⟩

end Lexis
