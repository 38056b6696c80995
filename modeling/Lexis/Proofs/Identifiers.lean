/-
# Lexis.Proofs.Identifiers -- one symbol for an identifier, in every source

Sources are lexed one after another with one interner, and between them its index may be
let go.  What is read off their tokens is a list of mentions: the symbol of each
identifier with the bytes of its token (`Step.mentions`).  `mentions_run` says what such
work does, by induction on it: the interner goes on from the texts that it held with the
identifiers of the sources in turn, and knows every mention by its bytes.

So symbols are equal exactly when the bytes are, the texts are those of before and then
the new spellings, each where it first came, and nothing but an identifier is ever among
the new ones.  `symbols_identify` collects this, for every interner that any calls have
left.
-/
import Lexis.Proofs.Naming
import Lexis.Proofs.Recount

namespace Lexis

set_option autoImplicit false

/-- The spelling of an identifier: a word that no keyword is spelled like. -/
structure IsIdentifier (bytes : List UInt8) : Prop where
  starts : ∃ b ∈ bytes.head?, b ∈ Byte.nameStarts
  isWord : IsWord bytes
  noKeyword : ∀ k : Keyword, k.bytes ≠ bytes

/-- An identifier as a token tells of it. -/
structure Mention where
  symbol : Symbol
  spelling : List UInt8
deriving DecidableEq

/-- The symbol has this text, and the bytes are its bytes. -/
structure Mention.Of (known : Interner) (m : Mention) (name : String) : Prop where
  resolves : known.resolve? m.symbol = some name
  spelling : m.spelling = Utf8.encode name

def Token.mention? (text : List UInt8) (t : Token) : Option Mention :=
  t.symbol?.map fun symbol => ⟨symbol, t.span text⟩

namespace Interner

/-- The identifiers of a source that was lexed, in the order of its tokens. -/
def Step.mentions (step : Step) : List Mention :=
  match step.call, step.answer with
  | .lex source, .lexed lexed => lexed.tokens.filterMap (Token.mention? source.bytes)
  | _, _ => []

/-- Lexing a source, or letting the index go. -/
inductive Call.IsWork : Call → Prop
  | lex (source : Source) : IsWork (.lex source)
  | release : IsWork .release

def mentions (n : Interner) (work : List Call) : List Mention :=
  (n.run work).flatMap Step.mentions

end Interner

/-! ## Identifiers of one source -/

theorem Lexeme.Spelled.isIdentifier {l : Lexeme} {e : Option LexicalError}
    {spelling rest : List UInt8} {text : String} (spelled : l.Spelled e spelling rest)
    (named : l.name? = some text) : IsIdentifier (Utf8.encode text) := by
  rw [spelled.encode_name named]
  cases spelled with
  | @word b tail _ starts goesOn stops =>
      have longest := (Spelled.word starts goesOn stops).word_longest.2.2
      refine ⟨⟨b, rfl, Byte.isNameStart_iff.mp starts⟩, longest.mem, ?_⟩
      intro k isKeyword
      simp only [name?, (Keyword.ofText?_read_iff longest.mem.ascii).mpr isKeyword] at named
      cases named
  | _ => cases named

theorem Piece.isIdentifier_of_mem {text last : List UInt8} {pieces : List Piece}
    (cut : Cut text pieces last) :
    ∀ name ∈ identifiers pieces, IsIdentifier (Utf8.encode name) := by
  induction cut with
  | done => exact fun _ member => absurd member List.not_mem_nil
  | @piece p _ pieces _ _ _ spelled _ ih =>
      intro name member
      rw [identifiers, List.filterMap_cons] at member
      cases named : p.lexeme.name? with
      | none =>
          rw [named] at member
          exact ih name member
      | some first =>
          rw [named] at member
          rcases List.mem_cons.mp member with rfl | later
          · exact spelled.isIdentifier named
          · exact ih name later

/-- The token of a piece mentions the text that the piece is looked up by. -/
theorem Token.Shows.mentions {text : List UInt8} {known : Interner} {t : Token} {p : Piece}
    (shown : t.Shows text known p) :
    (t.mention? text = none ∧ p.lexeme.name? = none) ∨
      ∃ m name, t.mention? text = some m ∧ p.lexeme.name? = some name ∧ m.Of known name := by
  obtain ⟨rest, spelled⟩ := shown.spelled
  cases named : p.lexeme.name? with
  | none =>
      refine .inl ⟨?_, rfl⟩
      rw [mention?, shown.symbol?_eq_none named, Option.map_none]
  | some name =>
      obtain ⟨symbol, content, resolves⟩ := shown.exists_symbol named
      refine .inr ⟨⟨symbol, t.span text⟩, name, ?_, rfl, resolves, ?_⟩
      · rw [mention?, symbol?_eq_some_iff.mpr content, Option.map_some]
      · rw [shown.span, spelled.encode_name named]

theorem Cut.mentions {text last : List UInt8} {pieces : List Piece} (cut : Cut text pieces last)
    {known : Interner} (sound : known.Sound) :
    List.Forall₂ (Mention.Of (Piece.names known pieces))
      ((Piece.tokens .start known pieces last).filterMap (Token.mention? text))
      (Piece.identifiers pieces) := by
  obtain ⟨front, position, tokens, shown⟩ := cut.forall₂_shows [] sound
  have noEnd : [Token.eof position].filterMap (Token.mention? text) = [] := rfl
  rw [show Piece.tokens .start known pieces last = _ from tokens, List.filterMap_append, noEnd,
    List.append_nil]
  rw [List.nil_append] at shown
  generalize Piece.names known pieces = later at shown ⊢
  clear tokens cut
  induction shown with
  | nil => exact .nil
  | @cons t p front pieces here _ ih =>
      rw [Piece.identifiers, List.filterMap_cons, List.filterMap_cons]
      rcases here.mentions with ⟨silent, unnamed⟩ | ⟨m, name, mentioned, named, of⟩
      · rw [silent, unnamed]
        exact ih
      · rw [mentioned, named]
        exact .cons of ih

/-! ## Work on many sources -/

namespace Interner

theorem mentions_cons (n : Interner) (c : Call) (work : List Call) :
    n.mentions (c :: work) =
      Step.mentions ⟨c, (n.perform c).1, (n.perform c).2.size⟩ ++ (n.perform c).2.mentions work :=
  rfl

/-- Work goes on from the texts of before with the identifiers of its sources in turn. -/
theorem mentions_run {n : Interner} {seen : List String} (holds : n.Holds seen)
    {work : List Call} (isWork : ∀ c ∈ work, c.IsWork) :
    ∃ names, (n.after work).Holds (seen ++ names) ∧
      List.Forall₂ (Mention.Of (n.after work)) (n.mentions work) names ∧
      ∀ name ∈ names, IsIdentifier (Utf8.encode name) := by
  induction work generalizing n seen with
  | nil =>
      refine ⟨[], ?_, .nil, fun _ member => absurd member List.not_mem_nil⟩
      rw [List.append_nil]
      exact holds
  | cons c work ih =>
      obtain ⟨here, later⟩ := List.forall_mem_cons.mp isWork
      cases here with
      | release => exact ih holds.release later
      | lex source =>
          obtain ⟨pieces, last, cut, run⟩ := n.perform_lex source
          have grown := holds.internAll (Piece.identifiers pieces)
          rw [← Piece.names_eq] at grown
          obtain ⟨names, final, mentions, identifiers⟩ := ih grown later
          rw [List.append_assoc] at final
          rw [mentions_cons, run]
          refine ⟨Piece.identifiers pieces ++ names, ?_, ?_, ?_⟩
          · show ((n.perform (.lex source)).2.after work).Holds _
            rw [run]
            exact final
          · show List.Forall₂ (Mention.Of ((n.perform (.lex source)).2.after work)) _ _
            rw [run]
            refine List.rel_append ?_ mentions
            exact (cut.mentions ⟨seen, holds⟩).imp fun m name of =>
              ⟨grows_after _ work _ _ of.resolves, of.spelling⟩
          · exact List.forall_mem_append.mpr ⟨Piece.isIdentifier_of_mem cut, identifiers⟩

/-- Work on sources as the tokens and the interner show it afterwards. -/
structure Identifies (n : Interner) (work : List Call) : Prop where
  /-- Equal symbols are equal bytes, in one source or in two. -/
  symbol_eq_iff : ∀ m ∈ n.mentions work, ∀ other ∈ n.mentions work,
    (m.symbol = other.symbol ↔ m.spelling = other.spelling)
  resolve?_symbol : ∀ m ∈ n.mentions work,
    ((n.after work).resolve? m.symbol).map Utf8.encode = some m.spelling
  resolve?_release : ∀ m ∈ n.mentions work,
    ((n.after work).release.resolve? m.symbol).map Utf8.encode = some m.spelling
  /-- The texts of before, and then the spellings that are new, each where it first came. -/
  texts_eq : (n.after work).texts.toList.map Utf8.encode = n.texts.toList.map Utf8.encode ++
    (((n.mentions work).map Mention.spelling).filter
      (· ∉ n.texts.toList.map Utf8.encode)).eraseDups
  isIdentifier : ∀ text ∈ (n.after work).texts.toList, text ∉ n.texts.toList →
    IsIdentifier (Utf8.encode text)

theorem texts_after {n : Interner} {seen names : List String} (holds : n.Holds seen)
    {work : List Call} (final : (n.after work).Holds (seen ++ names)) :
    (n.after work).texts.toList =
      n.texts.toList ++ (names.filter (· ∉ n.texts.toList)).eraseDups := by
  have fresh : names.removeAll seen = names.filter (· ∉ n.texts.toList) := by
    rw [List.removeAll]
    refine List.filter_congr fun name _ => ?_
    simp [holds.texts]
  rw [final.texts, List.eraseDups_append, fresh, holds.texts]

theorem identifies_of_holds {n : Interner} {seen : List String} (holds : n.Holds seen)
    {work : List Call} (isWork : ∀ c ∈ work, c.IsWork) : n.Identifies work := by
  obtain ⟨names, final, mentions, identifiers⟩ := mentions_run holds isWork
  have texts := texts_after holds final
  have resolves : ∀ m ∈ n.mentions work,
      ((n.after work).resolve? m.symbol).map Utf8.encode = some m.spelling := by
    have both := mentions.imp fun m name of => And.intro (Exists.intro name of) of
    intro m member
    obtain ⟨name, of⟩ := ((List.forall₂_and_left _ _).mp both).1 m member
    rw [of.resolves, of.spelling, Option.map_some]
  refine ⟨?_, resolves, resolves, ?_, ?_⟩
  · intro m member other member'
    exact Sound.symbol_eq_iff ⟨_, final⟩ (resolves m member) (resolves other member')
  · have spellings : (n.mentions work).map Mention.spelling = names.map Utf8.encode := by
      rw [← List.forall₂_eq_eq_eq, List.forall₂_map_left_iff, List.forall₂_map_right_iff]
      exact mentions.imp fun m name of => of.spelling
    have injective : Function.Injective Utf8.encode := fun _ _ => Utf8.encode_injective
    have inBytes : (fun bytes => decide (bytes ∉ n.texts.toList.map Utf8.encode)) ∘ Utf8.encode =
        fun name => decide (name ∉ n.texts.toList) := by
      funext name
      exact decide_eq_decide.mpr (not_congr (List.mem_map_of_injective injective))
    rw [texts, List.map_append, spellings, List.filter_map, inBytes,
      map_eraseDups injective]
  · intro text present absent
    rw [texts] at present
    have new := (List.mem_append.mp present).resolve_left absent
    exact identifiers text (List.mem_filter.mp (List.mem_eraseDups.mp new)).1

/-- **A symbol is a spelling**, whatever sources are lexed one after another and whenever
the index is let go: for every interner that any calls have left.  And no token but an
identifier touches the names. -/
theorem symbols_identify (prior work : List Call) (isWork : ∀ c ∈ work, c.IsWork) :
    (empty.after prior).Identifies work ∧
      ∀ (s : Scanner Backlog) (known : Interner),
        (s.next known).1.kind ≠ .identifier → (s.next known).2.2 = known := by
  obtain ⟨seen, holds⟩ := sound_empty.after prior
  exact ⟨identifies_of_holds holds isWork, fun s known => Scanner.next_names_of_kind_ne⟩

/-- A text of before, a keyword, a string and a comment that hold other words, and two
names in two sources with the index let go between them. -/
theorem symbols_identify_release :
    let one := Source.padded "one" [0x61, 0x20, 0x69, 0x66, 0x20, 0x22, 0x63, 0x22] (by decide)
    let two := Source.padded "two" [0x23, 0x64, 0x0A, 0x62, 0x3F, 0x61] (by decide)
    let n := empty.after [.intern "b", .release]
    let work : List Call := [.lex one, .release, .lex two]
    let last := (Scanner.ofSource one Backlog.empty).after n 2
    (∀ c ∈ work, c.IsWork) ∧ n.Identifies work ∧
      (n.mentions work).map Mention.spelling = [[0x61], [0x62], [0x61]] ∧
      (last.1.next last.2).1.kind = .literal .string ∧ (last.1.next last.2).2.2 = last.2 := by
  intro one two n work last
  have isWork : ∀ c ∈ work, c.IsWork := by
    intro c member
    simp only [work, List.mem_cons, List.not_mem_nil, or_false] at member
    rcases member with rfl | rfl | rfl
    · exact .lex one
    · exact .release
    · exact .lex two
  have isString : (last.1.next last.2).1.kind = .literal .string := by decide +kernel
  obtain ⟨identifies, silent⟩ := symbols_identify [.intern "b", .release] work isWork
  refine ⟨isWork, identifies, by decide +kernel, isString, silent last.1 last.2 ?_⟩
  rw [isString]
  decide

end Interner

end Lexis
