/-
# Lexis.Proofs.Naming -- what lexing asks of an interner, and what it is told

Only a word that is no keyword is looked up (`Lexeme.name?`).  So lexing does to the
names known just what interning its identifiers in turn does (`Piece.names_eq`), and
everything else in a token is the same whoever knows which names.

An interner only grows: a symbol that has a text keeps it (`Grows`).  One that came about
by interning is sound (`Sound`): it resolves the symbol that it gives to the text that it
was given, and no two symbols to one text.  So a content can be compared with its
lexeme at any later time (`Lexeme.Gives`), and two contents of one lexeme with each
other, whatever their symbols are (`Content.Agrees`).

`next_eq` says of the scanner that the names known decide nothing but symbols, and
`forall₂_shows` ties the tokens of a cut to its pieces.
-/
import Lexis.Proofs.Interning
import Lexis.Proofs.LongestMatch

namespace Lexis

set_option autoImplicit false

/-! ## Interners that grow -/

namespace Interner

/-- Every symbol that has a text keeps it. -/
def Grows (n m : Interner) : Prop :=
  ∀ (symbol : Symbol) (text : String), n.resolve? symbol = some text →
    m.resolve? symbol = some text

/-- The interner came about by interning. -/
def Sound (n : Interner) : Prop :=
  ∃ seen, n.Holds seen

/-- Interns texts in turn. -/
def internAll (n : Interner) (texts : List String) : Interner :=
  texts.foldl (fun n text => (n.intern text).2) n

variable {n m : Interner} {seen : List String}

namespace Grows

theorem refl (n : Interner) : n.Grows n := fun _ _ known => known

theorem trans {k : Interner} (first : n.Grows m) (second : m.Grows k) : n.Grows k :=
  fun symbol text known => second symbol text (first symbol text known)

end Grows

theorem grows_intern (n : Interner) (text : String) : n.Grows (n.intern text).2 :=
  fun _ _ known => resolve?_intern_of_eq_some known text

theorem grows_internAll (n : Interner) (texts : List String) : n.Grows (n.internAll texts) := by
  induction texts generalizing n with
  | nil => exact .refl n
  | cons text texts ih => exact (n.grows_intern text).trans (ih _)

theorem Holds.internAll (holds : n.Holds seen) (texts : List String) :
    (n.internAll texts).Holds (seen ++ texts) := by
  induction texts generalizing n seen with
  | nil =>
      rw [List.append_nil]
      exact holds
  | cons text texts ih =>
      rw [List.append_cons]
      exact ih (holds.intern text).2

theorem Holds.resolve?_intern (holds : n.Holds seen) (text : String) :
    (n.intern text).2.resolve? (n.intern text).1 = some text := by
  obtain ⟨symbol, grown⟩ := holds.intern text
  rw [grown.resolve?_eq, symbol]
  exact List.getElem?_idxOf (by simp)

namespace Sound

theorem internAll (sound : n.Sound) (texts : List String) : (n.internAll texts).Sound := by
  obtain ⟨seen, holds⟩ := sound
  exact ⟨_, holds.internAll texts⟩

theorem resolve?_intern (sound : n.Sound) (text : String) :
    (n.intern text).2.resolve? (n.intern text).1 = some text := by
  obtain ⟨seen, holds⟩ := sound
  exact holds.resolve?_intern text

/-- No two symbols have one text. -/
theorem symbol_inj (sound : n.Sound) {symbol other : Symbol} {text : String}
    (here : n.resolve? symbol = some text) (there : n.resolve? other = some text) :
    symbol = other := by
  obtain ⟨seen, holds⟩ := sound
  rw [holds.resolve?_eq] at here there
  obtain ⟨inside, isText⟩ := List.getElem?_eq_some_iff.mp here
  obtain ⟨inside', isText'⟩ := List.getElem?_eq_some_iff.mp there
  have place := (nodup_eraseDups seen).getElem_inj_iff.mp (isText.trans isText'.symm)
  cases symbol
  cases other
  exact congrArg Symbol.mk place

/-- Equal symbols are equal bytes. -/
theorem symbol_eq_iff (sound : n.Sound) {symbol other : Symbol} {bytes bytes' : List UInt8}
    (here : (n.resolve? symbol).map Utf8.encode = some bytes)
    (there : (n.resolve? other).map Utf8.encode = some bytes') :
    symbol = other ↔ bytes = bytes' := by
  constructor
  · rintro rfl
    exact Option.some.inj (here.symm.trans there)
  · rintro rfl
    obtain ⟨text, resolves, spelled⟩ := Option.map_eq_some_iff.mp here
    obtain ⟨text', resolves', spelled'⟩ := Option.map_eq_some_iff.mp there
    obtain rfl := Utf8.encode_injective (spelled.trans spelled'.symm)
    exact sound.symbol_inj resolves resolves'

end Sound

theorem sound_empty : empty.Sound := ⟨[], holds_empty⟩

end Interner

/-! ## Names of lexemes -/

/-- The text that a lexeme is looked up by. -/
def Lexeme.name? : Lexeme → Option String
  | .word bytes =>
      if Keyword.ofText? (Utf8.read bytes) = none then some (Utf8.read bytes) else none
  | _ => none

/-- The content of a lexeme, for one who knows the names: an identifier has a symbol of
its text, and everything else is fixed. -/
inductive Lexeme.Gives (known : Interner) (l : Lexeme) : Content → Prop
  | identifier {text : String} {symbol : Symbol} (named : l.name? = some text)
      (resolves : known.resolve? symbol = some text) : Gives known l (.identifier symbol)
  | plain (unnamed : l.name? = none) : Gives known l (l.content .empty).1

/-- The same content, where an identifier is what its symbol stands for. -/
inductive Content.Agrees (n m : Interner) : Content → Content → Prop
  | identifier {text : String} {symbol symbol' : Symbol} (here : n.resolve? symbol = some text)
      (there : m.resolve? symbol' = some text) :
      Agrees n m (.identifier symbol) (.identifier symbol')
  | plain {c : Content} (noSymbol : c.payload ≠ .symbol) : Agrees n m c c

/-- The same token, where an identifier is what its symbol stands for. -/
structure Token.Agrees (n m : Interner) (t u : Token) : Prop where
  content : t.content.Agrees n m u.content
  position : t.position = u.position
  length : t.length = u.length

namespace Lexeme

variable {l : Lexeme} {known : Interner} {text : String}

theorem content_of_name?_eq_some (named : l.name? = some text) (known : Interner) :
    l.content known = (.identifier (known.intern text).1, (known.intern text).2) := by
  cases l with
  | word bytes =>
      simp only [name?, Option.ite_none_right_eq_some, Option.some.injEq] at named
      obtain ⟨noKeyword, rfl⟩ := named
      simp only [content, noKeyword]
  | literal | punctuation | unknown => cases named

/-- A word that is not looked up is a keyword. -/
theorem exists_keyword {bytes : List UInt8} (unnamed : (word bytes).name? = none) :
    ∃ keyword, Keyword.ofText? (Utf8.read bytes) = some keyword := by
  simpa [name?, Option.ne_none_iff_exists'] using unnamed

theorem content_of_name?_eq_none (unnamed : l.name? = none) (known : Interner) :
    l.content known = ((l.content .empty).1, known) := by
  cases l with
  | word bytes =>
      obtain ⟨keyword, found⟩ := exists_keyword unnamed
      simp only [content, found]
  | literal | punctuation | unknown => rfl

/-- Only an identifier carries a symbol. -/
theorem payload_content_of_name?_eq_none (unnamed : l.name? = none) (known : Interner) :
    (l.content known).1.payload ≠ .symbol := by
  cases l with
  | word bytes =>
      obtain ⟨keyword, found⟩ := exists_keyword unnamed
      simp [content, found, Content.payload]
  | literal | punctuation | unknown => simp [content, Content.payload]

theorem content_snd (l : Lexeme) (known : Interner) :
    (l.content known).2 = known.internAll l.name?.toList := by
  cases named : l.name? with
  | some text =>
      rw [content_of_name?_eq_some named]
      rfl
  | none =>
      rw [content_of_name?_eq_none named]
      rfl

theorem sound_content (sound : known.Sound) (l : Lexeme) : (l.content known).2.Sound := by
  rw [l.content_snd]
  exact sound.internAll _

theorem gives_content (sound : known.Sound) (l : Lexeme) :
    l.Gives (l.content known).2 (l.content known).1 := by
  cases named : l.name? with
  | some text =>
      rw [content_of_name?_eq_some named]
      exact .identifier named (sound.resolve?_intern text)
  | none =>
      rw [content_of_name?_eq_none named]
      exact .plain named

namespace Gives

variable {n m : Interner} {c d : Content}

theorem mono (gives : l.Gives n c) (grows : n.Grows m) : l.Gives m c := by
  cases gives with
  | identifier named resolves => exact .identifier named (grows _ _ resolves)
  | plain unnamed => exact .plain unnamed

/-- Two contents of one lexeme agree, whatever was known when they were made. -/
theorem agrees (gives : l.Gives n c) (also : l.Gives m d) : c.Agrees n m d := by
  cases gives with
  | identifier named resolves =>
      cases also with
      | identifier named' resolves' =>
          obtain rfl := Option.some.inj (named.symm.trans named')
          exact .identifier resolves resolves'
      | plain unnamed => exact absurd (named.symm.trans unnamed) (Option.some_ne_none _)
  | plain unnamed =>
      cases also with
      | identifier named => exact absurd (named.symm.trans unnamed) (Option.some_ne_none _)
      | plain => exact .plain (payload_content_of_name?_eq_none unnamed _)

end Gives

end Lexeme

namespace Content.Agrees

variable {n m n' m' : Interner} {c d : Content}

theorem mono (agrees : c.Agrees n m d) (grows : n.Grows n') (grows' : m.Grows m') :
    c.Agrees n' m' d := by
  cases agrees with
  | identifier here there => exact .identifier (grows _ _ here) (grows' _ _ there)
  | plain noSymbol => exact .plain noSymbol

theorem kind_eq (agrees : c.Agrees n m d) : c.kind = d.kind := by
  cases agrees <;> rfl

end Content.Agrees

namespace Token.Agrees

variable {n m n' m' : Interner} {t u : Token}

theorem mono (agrees : t.Agrees n m u) (grows : n.Grows n') (grows' : m.Grows m') :
    t.Agrees n' m' u :=
  ⟨agrees.content.mono grows grows', agrees.position, agrees.length⟩

theorem isEof_eq (agrees : t.Agrees n m u) : t.isEof = u.isEof := by
  unfold isEof kind
  rw [agrees.content.kind_eq]

theorem eof (n m : Interner) (position : Position) :
    (Token.eof position).Agrees n m (.eof position) :=
  ⟨.plain (by simp [Token.eof, Content.payload]), rfl, rfl⟩

end Token.Agrees

/-! ## A scanner and what it knows -/

namespace Scanner

variable {σ : Type} [Sink σ]

/-- What a call of `next` can do, whatever names are known: give the end, or the content
of a lexeme. -/
inductive NextIs (s : Scanner σ) : Prop
  | eof (position : Position) (s' : Scanner σ)
      (step : ∀ known, s.next known = (.eof position, s', known))
  | lexeme (l : Lexeme) (position : Position) (length : Nat) (s' : Scanner σ)
      (step : ∀ known, s.next known =
        (⟨(l.content known).1, position, length⟩, s', (l.content known).2))

theorem next_eq (s : Scanner σ) : s.NextIs := by
  by_cases ended : s.head.skipTrivia.cursor.atEnd = true
  · refine .eof s.head.skipTrivia.position { s with head := s.head.skipTrivia } ?_
    intro known
    simp only [next, if_pos ended]
  · let head := s.head.skipTrivia
    let stop := head.moveTo head.cursor.read.stop
    refine .lexeme head.cursor.read.lexeme head.position
      (stop.position.offset - head.position.offset)
      ⟨stop, note s.reporter head.position head.cursor.read.error⟩ ?_
    intro known
    simp only [next, if_neg ended, head, stop]

/-- A call of `next` does to the names what interning does, if the token is an identifier,
and nothing otherwise. -/
theorem grows_next (s : Scanner σ) (known : Interner) : known.Grows (s.next known).2.2 := by
  cases s.next_eq with
  | eof position s' step =>
      rw [step]
      exact .refl known
  | lexeme l position length s' step =>
      rw [step, l.content_snd]
      exact known.grows_internAll _

theorem sound_next (s : Scanner σ) {known : Interner} (sound : known.Sound) :
    (s.next known).2.2.Sound := by
  cases s.next_eq with
  | eof position s' step =>
      rw [step]
      exact sound
  | lexeme l position length s' step =>
      rw [step]
      exact l.sound_content sound

/-- Scanners that know other names take the same token and go on alike. -/
theorem next_agrees (s : Scanner σ) {known known' : Interner} (sound : known.Sound)
    (sound' : known'.Sound) :
    (s.next known).2.1 = (s.next known').2.1 ∧
      (s.next known).1.Agrees (s.next known).2.2 (s.next known').2.2 (s.next known').1 := by
  cases s.next_eq with
  | eof position s' step =>
      rw [step, step]
      exact ⟨rfl, .eof _ _ position⟩
  | lexeme l position length s' step =>
      rw [step, step]
      exact ⟨rfl, (l.gives_content sound).agrees (l.gives_content sound'), rfl, rfl⟩

/-- A token that is no identifier leaves the names alone. -/
theorem next_names_of_kind_ne {s : Scanner σ} {known : Interner}
    (other : (s.next known).1.kind ≠ .identifier) : (s.next known).2.2 = known := by
  cases s.next_eq with
  | eof position s' step => rw [step]
  | lexeme l position length s' step =>
      rw [step] at other ⊢
      cases named : l.name? with
      | some text =>
          rw [l.content_of_name?_eq_some named] at other
          exact absurd rfl other
      | none => rw [l.content_of_name?_eq_none named]

end Scanner

/-! ## Pieces and their tokens -/

namespace Piece

/-- The texts that are looked up in a cut, in order. -/
def identifiers (pieces : List Piece) : List String :=
  pieces.filterMap fun p => p.lexeme.name?

theorem names_eq (known : Interner) (pieces : List Piece) :
    names known pieces = known.internAll (identifiers pieces) := by
  induction pieces generalizing known with
  | nil => rfl
  | cons p pieces ih =>
      show names (p.lexeme.content known).2 pieces = _
      rw [ih, p.lexeme.content_snd]
      cases named : p.lexeme.name? <;> simp [identifiers, named, Interner.internAll]

/-- What is known at the first token of a cut is known at its end. -/
theorem grows_names_cons (known : Interner) (p : Piece) (pieces : List Piece) :
    (p.lexeme.content known).2.Grows (names known (p :: pieces)) := by
  show Interner.Grows _ (names (p.lexeme.content known).2 pieces)
  rw [names_eq]
  exact Interner.grows_internAll _ _

end Piece

/-- The token is that of a piece, for one who knows the names. -/
structure Token.Shows (text : List UInt8) (known : Interner) (t : Token) (p : Piece) : Prop where
  content : p.lexeme.Gives known t.content
  length : t.length = p.spelling.length
  span : t.span text = p.spelling
  spelled : ∃ rest, p.lexeme.Spelled p.error p.spelling rest

/-- The symbol of an identifier stands for the bytes of its token. -/
def Token.Named (text : List UInt8) (known : Interner) (t : Token) : Prop :=
  ∀ symbol, t.symbol? = some symbol →
    (known.resolve? symbol).map Utf8.encode = some (t.span text)

/-- An identifier is spelled by its text. -/
theorem Lexeme.Spelled.encode_name {l : Lexeme} {e : Option LexicalError}
    {spelling rest : List UInt8} {text : String} (spelled : l.Spelled e spelling rest)
    (named : l.name? = some text) : Utf8.encode text = spelling := by
  cases l with
  | word bytes =>
      obtain ⟨_, rfl, longest⟩ := spelled.word_longest
      simp only [name?, Option.ite_none_right_eq_some, Option.some.injEq] at named
      rw [← named.2]
      exact Utf8.encode_read longest.mem.ascii
  | literal | punctuation | unknown => cases named

namespace Token

variable {text : List UInt8} {known later : Interner} {t : Token} {p : Piece}

theorem symbol?_eq_some_iff {symbol : Symbol} :
    t.symbol? = some symbol ↔ t.content = .identifier symbol := by
  unfold symbol?
  cases t.content <;> simp

namespace Shows

theorem mono (shown : t.Shows text known p) (grows : known.Grows later) :
    t.Shows text later p :=
  { shown with content := shown.content.mono grows }

/-- The content of a token that is no identifier is that of the lexeme. -/
theorem content_eq (shown : t.Shows text known p) (unnamed : p.lexeme.name? = none) :
    t.content = (p.lexeme.content .empty).1 := by
  have gives := shown.content
  generalize t.content = content at gives
  cases gives with
  | identifier named => exact absurd (named.symm.trans unnamed) (Option.some_ne_none _)
  | plain => rfl

/-- An identifier stands for what it was looked up by. -/
theorem exists_symbol (shown : t.Shows text known p) {name : String}
    (named : p.lexeme.name? = some name) :
    ∃ symbol, t.content = .identifier symbol ∧ known.resolve? symbol = some name := by
  have gives := shown.content
  generalize t.content = content at gives
  cases gives with
  | @identifier other symbol named' resolves =>
      obtain rfl := Option.some.inj (named'.symm.trans named)
      exact ⟨symbol, rfl, resolves⟩
  | plain unnamed => exact absurd (named.symm.trans unnamed) (Option.some_ne_none _)

theorem symbol?_eq_none (shown : t.Shows text known p) (unnamed : p.lexeme.name? = none) :
    t.symbol? = none := by
  rw [Option.eq_none_iff_forall_ne_some]
  intro symbol carries
  apply Lexeme.payload_content_of_name?_eq_none unnamed .empty
  rw [← shown.content_eq unnamed, symbol?_eq_some_iff.mp carries]
  rfl

theorem named (shown : t.Shows text known p) : t.Named text known := by
  intro symbol carries
  obtain ⟨rest, spelled⟩ := shown.spelled
  cases named : p.lexeme.name? with
  | none => simp [shown.symbol?_eq_none named] at carries
  | some name =>
      obtain ⟨symbol', content, resolves⟩ := shown.exists_symbol named
      rw [symbol?_eq_some_iff.mp carries] at content
      cases content
      rw [resolves, shown.span, Option.map_some, spelled.encode_name named]

end Shows

namespace Named

theorem mono (named : t.Named text known) (grows : known.Grows later) : t.Named text later := by
  intro symbol carries
  obtain ⟨name, resolves, spelled⟩ := Option.map_eq_some_iff.mp (named symbol carries)
  rw [grows symbol name resolves, Option.map_some, spelled]

theorem eof (text : List UInt8) (known : Interner) (position : Position) :
    (Token.eof position).Named text known := by
  intro symbol carries
  cases carries

end Named

end Token

/-- The tokens of a cut are those of its pieces, and the end. -/
theorem Cut.forall₂_shows {ahead : List UInt8} {pieces : List Piece} {last : List UInt8}
    (cut : Cut ahead pieces last) (before : List UInt8) {known : Interner} (sound : known.Sound) :
    ∃ front position,
      Piece.tokens (Position.start.stepOverAll before) known pieces last =
        front ++ [.eof position] ∧
      List.Forall₂ (Token.Shows (before ++ ahead) (Piece.names known pieces)) front pieces := by
  induction cut generalizing before known with
  | done => exact ⟨[], _, rfl, .nil⟩
  | @piece p rest pieces last _ _ spelled _ ih =>
      obtain ⟨front, position, tokens, shown⟩ :=
        ih (before ++ p.gap ++ p.spelling) (p.lexeme.sound_content sound)
      rw [Position.stepOverAll_append, Position.stepOverAll_append] at tokens
      refine ⟨p.token (Position.start.stepOverAll before) known :: front, position, ?_, .cons ?_ ?_⟩
      · rw [Piece.tokens, List.cons_append]
        exact congrArg _ tokens
      · have offset : (p.token (Position.start.stepOverAll before) known).position.offset =
            (before ++ p.gap).length := by
          rw [← Position.offset_stepOverAll_start, Position.stepOverAll_append]
          rfl
        have later := Piece.grows_names_cons known p pieces
        exact ⟨(p.lexeme.gives_content sound).mono later, rfl,
          Token.span_eq (List.append_assoc _ _ _).symm offset rfl, rest, spelled⟩
      · rw [List.append_assoc, List.append_assoc] at shown
        exact shown

/-- Every token of a run is the end or that of a piece, for the names that the run leaves. -/
theorem Source.shows_of_mem_lex {σ : Type} [Sink σ] (source : Source) (sink : σ)
    {known : Interner} (sound : known.Sound) {t : Token}
    (member : t ∈ (source.lex sink known).1.tokens) :
    (∃ p, t.Shows source.bytes (source.lex sink known).2.2 p) ∨ ∃ position, t = .eof position := by
  obtain ⟨pieces, last, cut, run⟩ := source.lex_of_cut sink known
  obtain ⟨front, position, tokens, shown⟩ := cut.forall₂_shows [] sound
  rw [Position.stepOverAll_nil] at tokens
  rw [run] at member ⊢
  dsimp only at member
  rw [tokens] at member
  rcases List.mem_append.mp member with isPiece | isEnd
  · have both := shown.imp fun t p shows => And.intro (Exists.intro p shows) shows
    exact .inl (((List.forall₂_and_left _ _).mp both).1 t isPiece)
  · exact .inr ⟨position, List.mem_singleton.mp isEnd⟩

/-! ## Calls -/

namespace Interner

/-- Lexing gives the tokens of a cut and interns its identifiers. -/
theorem perform_lex (n : Interner) (source : Source) :
    ∃ pieces last, Cut source.bytes pieces last ∧
      n.perform (.lex source) =
        (.lexed ⟨Piece.tokens .start n pieces last, (Piece.diagnostics .start pieces).length⟩,
          Piece.names n pieces) := by
  obtain ⟨pieces, last, cut, run⟩ := source.lex_of_cut Backlog.empty n
  refine ⟨pieces, last, cut, ?_⟩
  simp only [perform, run]

/-- What a call can do to an interner: intern texts, rebuild the index or let it go. -/
theorem perform_cases (n : Interner) (c : Call) :
    (∃ texts, (n.perform c).2 = n.internAll texts) ∨ (n.perform c).2 = n.reindex ∨
      (n.perform c).2 = n.release := by
  cases c with
  | intern text | tryIntern text =>
      rcases n.intern?_cases text with accepts | ⟨_, refuses⟩
      · exact .inl ⟨[text], by simp only [perform, accepts]; rfl⟩
      · exact .inr (.inl (by simp only [perform, refuses]))
  | tryResolve symbol => exact .inl ⟨[], rfl⟩
  | resolve symbol =>
      refine .inl ⟨[], ?_⟩
      simp only [perform]
      split <;> rfl
  | release => exact .inr (.inr rfl)
  | lex source =>
      obtain ⟨pieces, last, _, run⟩ := n.perform_lex source
      exact .inl ⟨Piece.identifiers pieces, by rw [run, Piece.names_eq]⟩

theorem grows_perform (n : Interner) (c : Call) : n.Grows (n.perform c).2 := by
  rcases n.perform_cases c with ⟨texts, result⟩ | result | result
  · rw [result]
    exact n.grows_internAll texts
  · rw [result]
    exact .refl n
  · rw [result]
    exact .refl n

theorem Sound.perform {n : Interner} (sound : n.Sound) (c : Call) : (n.perform c).2.Sound := by
  rcases n.perform_cases c with ⟨texts, result⟩ | result | result
  · rw [result]
    exact sound.internAll texts
  all_goals
    obtain ⟨seen, holds⟩ := sound
    rw [result]
  · exact ⟨seen, holds.reindex⟩
  · exact ⟨seen, holds.release⟩

theorem grows_after (n : Interner) (calls : List Call) : n.Grows (n.after calls) := by
  induction calls generalizing n with
  | nil => exact .refl n
  | cons c calls ih => exact (n.grows_perform c).trans (ih _)

theorem Sound.after {n : Interner} (sound : n.Sound) (calls : List Call) :
    (n.after calls).Sound := by
  induction calls generalizing n with
  | nil => exact sound
  | cons c calls ih => exact ih (sound.perform c)

end Interner

end Lexis
