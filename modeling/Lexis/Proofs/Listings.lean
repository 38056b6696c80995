/-
# Lexis.Proofs.Listings -- a listing is lines, and tells its tokens apart

A listing is a title and then a row for each token.  No row holds a control character:
labels, numbers and identifiers have none, and a literal is quoted.  So a listing is
framed, if the name of the source is on one line.

A row is read from the left.  Its label ends at a parenthesis or a space, a quoted text
at its quote (`Quoted.quoted_append_inj`), an identifier at the parenthesis, since it is
made of letters, digits and underscores, and a number where its digits do.  Nothing is
left that could be read in two ways (`row_inj`), whatever a literal holds.

`Session` is a source that was lexed with any interner and listed at any time later;
`readable` compares two of them.
-/
import Lexis.Listing
import Lexis.Proofs.Identifiers
import Lexis.Proofs.Quoting

namespace Lexis

set_option autoImplicit false

/-! ## Kinds -/

namespace Kind

theorem label_injective {k k' : Kind} (same : k.label = k'.label) : k = k' := by
  have apart : (all.map label).Nodup := by decide +kernel
  exact List.inj_on_of_nodup_map apart (mem_all k) (mem_all k') same

/-- What comes next in a row is no part of a label. -/
def inLabel (c : Char) : Bool :=
  c != '(' && c != ' '

theorem inLabel_of_mem_label (k : Kind) : ∀ c ∈ k.label.toList, inLabel c = true := by
  have each : ∀ k ∈ all, k.label.toList.all inLabel = true := by decide +kernel
  exact List.all_eq_true.mp (each k (mem_all k))

theorem plain_label (k : Kind) : Plain k.label := by
  have each : ∀ k ∈ all, Plain k.label := by decide +kernel
  exact each k (mem_all k)

end Kind

/-! ## Tokens -/

/-- An identifier has a text, and it is a word. -/
def Token.Worded (names : Interner) (t : Token) : Prop :=
  ∀ symbol, t.symbol? = some symbol →
    ∃ text, names.resolve? symbol = some text ∧ IsWord (Utf8.encode text)

/-- Two tokens, each for its own names, that a reader of listings cannot tell apart. -/
structure Token.ReadsAs (names names' : Interner) (t u : Token) : Prop where
  kind : t.kind = u.kind
  line : t.position.line = u.position.line
  column : t.position.column = u.position.column
  identifier : ∀ symbol ∈ t.symbol?, ∃ symbol' ∈ u.symbol?, ∃ text,
    names.resolve? symbol = some text ∧ names'.resolve? symbol' = some text
  shown : t.literal?.map Literal.shown = u.literal?.map Literal.shown
  /-- Literals that are text are the same bytes. -/
  literal : ∀ l ∈ t.literal?, ∀ l' ∈ u.literal?, l.text?.isSome → l'.text?.isSome → l = l'

theorem IsWord.plain {text : String} (isWord : IsWord (Utf8.encode text)) : Plain text := by
  have printed : ∀ b ∈ Byte.nameBytes, ¬ b < 0x20 := by decide +kernel
  exact plain_iff.mpr fun b control member => printed b (isWord b member) control

/-- A word is no longer read where a parenthesis closes. -/
theorem IsWord.not_parenthesis {text : String} (isWord : IsWord (Utf8.encode text)) :
    ∀ c ∈ text.toList, (c != ')') = true := by
  intro c member
  rw [bne_iff_ne]
  rintro rfl
  have inBytes : (0x29 : UInt8) ∈ Utf8.encode text := (Utf8.mem_encode_iff (by decide)).mpr member
  exact absurd (isWord _ inBytes) (by decide +kernel)

/-- What is shown of a text is the text. -/
theorem Literal.eq_of_shown {l l' : Literal} (shown : l.shown = l'.shown)
    (isText : l.text?.isSome) (isText' : l'.text?.isSome) : l = l' := by
  obtain ⟨text, found⟩ := Option.isSome_iff_exists.mp isText
  obtain ⟨text', found'⟩ := Option.isSome_iff_exists.mp isText'
  have bytes := Utf8.encode_of_decode? found
  have bytes' := Utf8.encode_of_decode? found'
  have same : text = text' := by
    rwa [Literal.shown, Literal.shown, ← bytes, ← bytes', Utf8.read_encode,
      Utf8.read_encode] at shown
  cases l
  cases l'
  simp only at bytes bytes'
  rw [← bytes, ← bytes', same]

namespace Token

variable {text : List UInt8} {known later : Interner} {t : Token} {p : Piece}

theorem Shows.worded (shown : t.Shows text known p) : t.Worded known := by
  intro symbol carries
  obtain ⟨rest, spelled⟩ := shown.spelled
  cases named : p.lexeme.name? with
  | none => simp [shown.symbol?_eq_none named] at carries
  | some name =>
      obtain ⟨symbol', content, resolves⟩ := shown.exists_symbol named
      rw [symbol?_eq_some_iff.mp carries] at content
      cases content
      exact ⟨name, resolves, (spelled.isIdentifier named).isWord⟩

theorem Worded.mono (worded : t.Worded known) (grows : known.Grows later) : t.Worded later := by
  intro symbol carries
  obtain ⟨name, resolves, isWord⟩ := worded symbol carries
  exact ⟨name, grows symbol name resolves, isWord⟩

end Token

/-! ## Rows -/

namespace Listing

variable {known known' : Interner} {t u : Token}

/-- The first line, without its line feed. -/
def title (source : Source) (tokens : List Token) : String :=
  "Tokens for '" ++ source.name ++ "' (" ++ toString tokens.length ++ " tokens):"

/-- The line of a token, without its line feed. -/
def row (known : Interner) (t : Token) : String :=
  "  " ++ t.kind.label ++ payload known t ++ " @ " ++ t.position.text

theorem header_eq (source : Source) (tokens : List Token) :
    header source tokens = title source tokens ++ "\n" := by
  simp only [header, title, String.append_assoc]
  rfl

theorem line_eq (known : Interner) (t : Token) : line known t = row known t ++ "\n" := rfl

theorem payload_identifier {symbol : Symbol} {position : Position} {length : Nat} {text : String}
    (resolves : known.resolve? symbol = some text) :
    payload known ⟨.identifier symbol, position, length⟩ = "(" ++ text ++ ")" := by
  show "(" ++ known.text symbol ++ ")" = _
  rw [Interner.text, resolves, Option.getD_some]

theorem plain_payload (worded : t.Worded known) : Plain (payload known t) := by
  obtain ⟨content, position, length⟩ := t
  cases content with
  | literal form text =>
      have opening : Plain "(" := by decide
      exact (opening.append (Quoted.plain_quoted _)).append (by decide)
  | identifier symbol =>
      obtain ⟨text, resolves, isWord⟩ := worded symbol rfl
      have opening : Plain "(" := by decide
      rw [payload_identifier resolves]
      exact (opening.append isWord.plain).append (by decide)
  | eof | unknown | keyword | punctuation => exact fun c member => absurd member (by simp [payload])

theorem plain_row (worded : t.Worded known) : Plain (row known t) := by
  have indent : Plain "  " := by decide
  exact (((indent.append t.kind.plain_label).append (plain_payload worded)).append
    (by decide)).append (.position _)

/-- Behind a label stands a parenthesis or a space. -/
theorem inLabel_payload (known : Interner) (t : Token) (rest : List Char) :
    ∀ c ∈ ((payload known t).toList ++ (" @ ".toList ++ rest)).head?, Kind.inLabel c = false := by
  intro c first
  unfold payload at first
  split at first
  · rw [String.toList_append, String.toList_append, List.append_assoc, List.append_assoc] at first
    rw [← Option.some.inj first]
    rfl
  · rw [String.toList_append, String.toList_append, List.append_assoc, List.append_assoc] at first
    rw [← Option.some.inj first]
    rfl
  · rw [← Option.some.inj first]
    rfl

/-- A literal in parentheses is read back as it is shown. -/
theorem literal_append_inj {l l' : Literal} {rest rest' : List Char}
    (same : ("(" ++ l.quoted ++ ")").toList ++ rest = ("(" ++ l'.quoted ++ ")").toList ++ rest') :
    l.shown = l'.shown ∧ rest = rest' := by
  simp only [Literal.quoted, String.toList_append, List.append_assoc,
    List.append_cancel_left_eq] at same
  obtain ⟨shown, behind⟩ := Quoted.quoted_append_inj same
  exact ⟨shown, List.append_cancel_left behind⟩

/-- So is a word in parentheses, which has none itself. -/
theorem word_append_inj {text text' : String} (isWord : IsWord (Utf8.encode text))
    (isWord' : IsWord (Utf8.encode text')) {rest rest' : List Char}
    (same : ("(" ++ text ++ ")").toList ++ rest = ("(" ++ text' ++ ")").toList ++ rest') :
    text = text' ∧ rest = rest' := by
  have stops (tail : List Char) : ∀ c ∈ (")".toList ++ tail).head?, (c != ')') = false := by
    intro c first
    rw [← Option.some.inj first]
    rfl
  simp only [String.toList_append, List.append_assoc, List.append_cancel_left_eq] at same
  obtain ⟨sameText, behind⟩ := append_inj_of_stops isWord.not_parenthesis (stops _)
    isWord'.not_parenthesis (stops _) same
  exact ⟨String.toList_inj.mp sameText, List.append_cancel_left behind⟩

/-- What a token carries is read from the left, when its kind is known. -/
theorem payload_append_inj (worded : t.Worded known) (worded' : u.Worded known')
    (sameKind : t.kind = u.kind) {rest rest' : List Char}
    (same : (payload known t).toList ++ rest = (payload known' u).toList ++ rest') :
    (∀ symbol ∈ t.symbol?, ∃ symbol' ∈ u.symbol?, ∃ text,
        known.resolve? symbol = some text ∧ known'.resolve? symbol' = some text) ∧
      t.literal?.map Literal.shown = u.literal?.map Literal.shown ∧ rest = rest' := by
  obtain ⟨content, position, length⟩ := t
  obtain ⟨content', position', length'⟩ := u
  cases content with
  | literal form text =>
      cases content' with
      | literal form' text' =>
          obtain ⟨shown, behind⟩ := literal_append_inj same
          refine ⟨fun symbol carries => absurd carries (by simp [Token.symbol?]), ?_, behind⟩
          exact congrArg some shown
      | _ => cases sameKind
  | identifier symbol =>
      cases content' with
      | identifier symbol' =>
          obtain ⟨text, resolves, isWord⟩ := worded symbol rfl
          obtain ⟨text', resolves', isWord'⟩ := worded' symbol' rfl
          rw [payload_identifier resolves, payload_identifier resolves'] at same
          obtain ⟨rfl, behind⟩ := word_append_inj isWord isWord' same
          refine ⟨?_, rfl, behind⟩
          intro _ carries
          cases carries
          exact ⟨symbol', rfl, text, resolves, resolves'⟩
      | _ => cases sameKind
  | eof | unknown | keyword | punctuation =>
      cases content' with
      | literal | identifier => cases sameKind
      | _ => exact ⟨fun symbol carries => absurd carries (by simp [Token.symbol?]), rfl, same⟩

/-- Equal rows are of tokens that read alike. -/
theorem row_inj (worded : t.Worded known) (worded' : u.Worded known')
    (same : row known t = row known' u) : t.ReadsAs known known' u := by
  have chars := congrArg String.toList same
  simp only [row, String.toList_append, List.append_assoc, List.append_cancel_left_eq] at chars
  obtain ⟨sameLabel, behind⟩ := append_inj_of_stops t.kind.inLabel_of_mem_label
    (inLabel_payload _ _ _) u.kind.inLabel_of_mem_label (inLabel_payload _ _ _) chars
  have sameKind := Kind.label_injective (String.toList_inj.mp sameLabel)
  obtain ⟨identifier, shown, further⟩ := payload_append_inj worded worded' sameKind behind
  have place := List.append_cancel_left further
  rw [← List.append_nil t.position.text.toList, ← List.append_nil u.position.text.toList] at place
  obtain ⟨line, column, _⟩ := Position.text_append_inj (by simp) (by simp) place
  refine ⟨sameKind, line, column, identifier, shown, ?_⟩
  intro l carries l' carries' isText isText'
  rw [Option.mem_def.mp carries, Option.mem_def.mp carries'] at shown
  exact Literal.eq_of_shown (Option.some.inj shown) isText isText'

/-! ## Listings -/

theorem framed_render {source : Source} {tokens : List Token}
    (oneLine : '\n' ∉ source.name.toList) (worded : ∀ t ∈ tokens, t.Worded known) :
    Framed ((title source tokens :: tokens.map (row known)).map Utf8.encode)
      (render known source tokens) := by
  have heading : '\n' ∉ (title source tokens).toList := by
    have number := (Plain.nat tokens.length).oneLine
    simpa [title, oneLine] using number
  have rows : Framed (tokens.flatMap fun t => [Utf8.encode (row known t)])
      (tokens.flatMap fun t => Utf8.encode (line known t)) :=
    .flatMap fun t member => .encode (plain_row (worded t member)).oneLine
  rw [List.map_cons, List.map_map, List.map_eq_flatMap, render, header_eq]
  exact (Framed.encode heading).append rows

/-- A source with the sink that its diagnostics go to, and what else is asked of the
interner, before the source is lexed and between lexing and listing it. -/
structure Session (σ : Type) where
  source : Source
  sink : σ
  before : List Interner.Call
  after : List Interner.Call

namespace Session

variable {σ : Type} [Sink σ] (s : Session σ)

def lexed : Lexed × σ × Interner :=
  s.source.lex s.sink (Interner.empty.after s.before)

def tokens : List Token := s.lexed.1.tokens

/-- The names known when the tokens are listed. -/
def names : Interner := s.lexed.2.2.after s.after

def listing : List UInt8 := render s.names s.source s.tokens

theorem worded : ∀ t ∈ s.tokens, t.Worded s.names := by
  intro t member
  have sound := Interner.sound_empty.after s.before
  rcases s.source.shows_of_mem_lex s.sink sound member with ⟨p, shown⟩ | ⟨position, rfl⟩
  · exact shown.worded.mono (Interner.grows_after _ s.after)
  · intro symbol carries
    cases carries

theorem framed (oneLine : '\n' ∉ s.source.name.toList) :
    Framed ((title s.source s.tokens :: s.tokens.map (row s.names)).map Utf8.encode) s.listing :=
  framed_render oneLine s.worded

end Session

theorem forall₂_readsAs {tokens others : List Token} (worded : ∀ t ∈ tokens, t.Worded known)
    (worded' : ∀ u ∈ others, u.Worded known')
    (same : tokens.map (row known) = others.map (row known')) :
    List.Forall₂ (Token.ReadsAs known known') tokens others := by
  rw [← List.forall₂_eq_eq_eq, List.forall₂_map_left_iff, List.forall₂_map_right_iff] at same
  induction same with
  | nil => exact .nil
  | cons here _ ih =>
      obtain ⟨first, later⟩ := List.forall_mem_cons.mp worded
      obtain ⟨first', later'⟩ := List.forall_mem_cons.mp worded'
      exact .cons (row_inj first first' here) (ih later later')

/-- **A listing is lines, and tells its tokens apart**: a title and a row for each token,
if the name of the source is on one line; and equal listings have the same name and, token
by token, the same kind, line, column, identifier and literal as it is shown. -/
theorem readable {σ τ : Type} [Sink σ] [Sink τ] (one : Session σ)
    (oneLine : '\n' ∉ one.source.name.toList) :
    Framed ((title one.source one.tokens :: one.tokens.map (row one.names)).map Utf8.encode)
      one.listing ∧
    ∀ other : Session τ, '\n' ∉ other.source.name.toList → one.listing = other.listing →
      one.source.name = other.source.name ∧
        List.Forall₂ (Token.ReadsAs one.names other.names) one.tokens other.tokens := by
  refine ⟨one.framed oneLine, ?_⟩
  intro other oneLine' same
  have framed := one.framed oneLine
  rw [same] at framed
  have lines := framed.unique (other.framed oneLine')
  have injective : Function.Injective Utf8.encode := fun _ _ => Utf8.encode_injective
  obtain ⟨sameTitle, sameRows⟩ := List.cons.inj (List.map_injective_iff.mpr injective lines)
  have tokens := forall₂_readsAs one.worded other.worded sameRows
  refine ⟨?_, tokens⟩
  rw [title, title, tokens.length_eq] at sameTitle
  simpa [← String.toList_inj] using sameTitle

/-- A keyword and a string that holds a parenthesis, with a space or a tab between them:
the listings are equal. -/
theorem readable_blank :
    let one : Session Backlog :=
      ⟨.padded "blank" [0x69, 0x66, 0x20, 0x22, 0x29, 0x22] (by decide), .empty, [], []⟩
    let other : Session Backlog :=
      ⟨.padded "blank" [0x69, 0x66, 0x09, 0x22, 0x29, 0x22] (by decide), .empty, [.release], []⟩
    '\n' ∉ one.source.name.toList ∧ '\n' ∉ other.source.name.toList ∧
      one.listing = other.listing ∧
      Framed ((title one.source one.tokens :: one.tokens.map (row one.names)).map Utf8.encode)
        one.listing ∧
      one.source.name = other.source.name ∧
      List.Forall₂ (Token.ReadsAs one.names other.names) one.tokens other.tokens := by
  intro one other
  have oneLine : '\n' ∉ one.source.name.toList := by decide
  have oneLine' : '\n' ∉ other.source.name.toList := by decide
  have same : one.listing = other.listing := by decide +kernel
  have read : Framed _ _ ∧ ∀ other : Session Backlog, _ := readable one oneLine
  exact ⟨oneLine, oneLine', same, read.1, read.2 other oneLine' same⟩

end Listing

end Lexis
