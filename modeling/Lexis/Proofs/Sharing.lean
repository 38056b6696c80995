/-
# Lexis.Proofs.Sharing -- scanners that share an interner do not disturb each other

Readers stand over sources, each with a scanner and a backlog of its own, and look names
up in one interner.  They take tokens by turns, in any order and as often as they like,
and calls of the interner that none of them makes come in between (`Sharing.turn`).

What a reader has done is what it does alone, on an interner that nobody used before
(`Reader.Follows`).  Its scanner is the same one, so it stands at the same position and
has reported the same errors.  Its tokens are the same but for the symbols, and these
stand for the same texts.  `Follows.read` is the step of the reader whose turn it is, and
`Follows.mono` the frame for all others: an interner only grows.  `follow_after` puts
them together, by induction on the turns.

Since the interner stays sound, a symbol means one text, whoever of the readers got it.
-/
import Lexis.Proofs.Identifiers

namespace Lexis

set_option autoImplicit false

/-! ## Readers -/

/-- A scanner with a backlog of its own, and the tokens that it has given. -/
structure Reader where
  scanner : Scanner Backlog
  taken : List Token

namespace Reader

def ofSource (source : Source) : Reader := ⟨.ofSource source Backlog.empty, []⟩

/-- Takes one token. -/
def read (r : Reader) (known : Interner) : Reader × Interner :=
  let (token, scanner, known) := r.scanner.next known
  (⟨scanner, r.taken ++ [token]⟩, known)

/-- The reader of a source after so many tokens, with an interner to itself. -/
def alone (source : Source) : Nat → Reader × Interner
  | 0 => (ofSource source, .empty)
  | n + 1 => (alone source n).1.read (alone source n).2

/-- The identifiers among the tokens. -/
def mentions (source : Source) (r : Reader) : List Mention :=
  r.taken.filterMap (Token.mention? source.bytes)

/-- The reader has done what it does alone in `n` steps. -/
structure Follows (source : Source) (n : Nat) (known : Interner) (r : Reader) : Prop where
  /-- The same place, the same diagnostics and the same number of them. -/
  scanner : r.scanner = (alone source n).1.scanner
  tokens : List.Forall₂ (Token.Agrees known (alone source n).2) r.taken (alone source n).1.taken
  /-- Each identifier stands for its bytes. -/
  named : ∀ t ∈ r.taken, t.Named source.bytes known

end Reader

/-! ## Turns -/

/-- What can happen to an interner that readers share: a reader takes a token, or a call
comes from outside. -/
inductive Turn where
  | read (reader : Nat)
  | call (c : Interner.Call)

def Turn.isRead (i : Nat) : Turn → Bool
  | .read j => j == i
  | .call _ => false

/-- How many tokens a reader takes in these turns. -/
def Turn.reads (i : Nat) (turns : List Turn) : Nat :=
  turns.countP (isRead i)

/-- Readers and their interner. -/
structure Sharing where
  readers : List Reader
  known : Interner

namespace Sharing

def start (sources : List Source) (known : Interner) : Sharing :=
  ⟨sources.map .ofSource, known⟩

def turn (s : Sharing) : Turn → Sharing
  | .read i =>
      match s.readers[i]? with
      | some r => ⟨s.readers.set i (r.read s.known).1, (r.read s.known).2⟩
      | none => s
  | .call c => { s with known := (s.known.perform c).2 }

def after (s : Sharing) (turns : List Turn) : Sharing :=
  turns.foldl turn s

/-- The identifiers that any of the readers has taken. -/
def mentions (sources : List Source) (s : Sharing) : List Mention :=
  (List.zipWith Reader.mentions sources s.readers).flatten

/-- Every reader has done what it does alone in its own turns. -/
structure Follow (sources : List Source) (turns : List Turn) (s : Sharing) : Prop where
  size : s.readers.length = sources.length
  reader : ∀ (i : Nat) (source : Source), sources[i]? = some source →
    ∃ r, s.readers[i]? = some r ∧ r.Follows source (Turn.reads i turns) s.known

/-- Readers do not disturb each other, and agree on what a symbol means. -/
structure Undisturbed (sources : List Source) (turns : List Turn) (s : Sharing) : Prop
    extends s.Follow sources turns where
  symbol_eq_iff : ∀ m ∈ s.mentions sources, ∀ other ∈ s.mentions sources,
    (m.symbol = other.symbol ↔ m.spelling = other.spelling)
  resolve?_symbol : ∀ m ∈ s.mentions sources,
    (s.known.resolve? m.symbol).map Utf8.encode = some m.spelling

end Sharing

/-! ## One step of one reader -/

/-- The next token of a scanner that has passed the start of its source. -/
theorem Scanner.named_next {σ : Type} [Sink σ] {source : Source} {s : Scanner σ}
    {front : List UInt8} (passes : (Head.ofSource source).Passes front s.head) {known : Interner}
    (sound : known.Sound) : (s.next known).1.Named source.bytes (s.next known).2.2 := by
  have can := next_next (passes.inStep (Head.inStep_ofSource source)) known
  generalize s.next known = result at can ⊢
  cases can with
  | eof => exact Token.Named.eof _ _ _
  | @piece p head _ _ spelled further =>
      have ahead : source.bytes = (front ++ p.gap) ++ (p.spelling ++ head.cursor.rest) := by
        have whole := (passes.trans further).cursor.rest_eq
        rw [List.append_assoc, List.append_assoc] at whole
        rw [List.append_assoc]
        exact whole
      have offset : (p.token s.head.position known).position.offset = (front ++ p.gap).length := by
        rw [← Position.offset_stepOverAll_start, Position.stepOverAll_append]
        show (s.head.position.stepOverAll p.gap).offset = _
        rw [passes.position]
        rfl
      apply Token.Shows.named (p := p)
      constructor
      · exact p.lexeme.gives_content sound
      · rfl
      · exact Token.span_eq ahead offset rfl
      · exact ⟨_, spelled⟩

namespace Reader

/-- The scanner and the names of a reader that is alone. -/
theorem alone_eq (source : Source) (n : Nat) :
    ((alone source n).1.scanner, (alone source n).2) =
      (Scanner.ofSource source Backlog.empty).after .empty n := by
  induction n with
  | zero => rfl
  | succ n ih =>
      rw [Scanner.after, ← ih]
      rfl

theorem taken_alone_succ (source : Source) (n : Nat) :
    (alone source (n + 1)).1.taken =
      (alone source n).1.taken ++ [((alone source n).1.scanner.next (alone source n).2).1] := rfl

theorem grows_read (r : Reader) (known : Interner) : known.Grows (r.read known).2 :=
  r.scanner.grows_next known

theorem sound_read (r : Reader) {known : Interner} (sound : known.Sound) :
    (r.read known).2.Sound :=
  r.scanner.sound_next sound

theorem sound_alone (source : Source) (n : Nat) : (alone source n).2.Sound := by
  induction n with
  | zero => exact Interner.sound_empty
  | succ n ih => exact (alone source n).1.sound_read ih

theorem follows_ofSource (source : Source) (known : Interner) :
    (ofSource source).Follows source 0 known :=
  ⟨rfl, .nil, fun _ member => absurd member List.not_mem_nil⟩

namespace Follows

variable {source : Source} {n : Nat} {known later : Interner} {r : Reader}

/-- What others do to the interner does not matter. -/
theorem mono (follows : r.Follows source n known) (grows : known.Grows later) :
    r.Follows source n later where
  scanner := follows.scanner
  tokens := follows.tokens.imp fun _ _ agrees => agrees.mono grows (.refl _)
  named t member := (follows.named t member).mono grows

theorem passes (follows : r.Follows source n known) :
    ∃ front, (Head.ofSource source).Passes front r.scanner.head := by
  obtain ⟨front, passes⟩ := Scanner.passes_after source Backlog.empty .empty n
  rw [← alone_eq, ← follows.scanner] at passes
  exact ⟨front, passes⟩

/-- The reader goes on as it does alone. -/
theorem read (follows : r.Follows source n known) (sound : known.Sound) :
    (r.read known).1.Follows source (n + 1) (r.read known).2 := by
  obtain ⟨front, passes⟩ := follows.passes
  obtain ⟨sameScanner, sameToken⟩ := r.scanner.next_agrees sound (sound_alone source n)
  have grows := r.grows_read known
  have aloneGrows := r.scanner.grows_next (alone source n).2
  have step : alone source (n + 1) = (alone source n).1.read (alone source n).2 := rfl
  constructor
  · rw [step, Reader.read, Reader.read, ← follows.scanner]
    exact sameScanner
  · rw [step, Reader.read, Reader.read, ← follows.scanner]
    have before := follows.tokens.imp fun _ _ agrees => agrees.mono grows aloneGrows
    exact List.rel_append before (.cons sameToken .nil)
  · intro t member
    rcases List.mem_append.mp member with old | new
    · exact (follows.named t old).mono grows
    · rw [List.mem_singleton.mp new]
      exact Scanner.named_next passes sound

end Follows

end Reader

/-! ## Turns of many -/

namespace Turn

variable {i : Nat} {turns : List Turn}

theorem reads_snoc (t : Turn) :
    reads i (turns ++ [t]) = reads i turns + if t.isRead i then 1 else 0 := by
  simp [reads]

end Turn

namespace Sharing

variable {sources : List Source} {turns : List Turn} {s : Sharing}

theorem after_snoc (s : Sharing) (turns : List Turn) (t : Turn) :
    s.after (turns ++ [t]) = (s.after turns).turn t := by
  simp [after]

theorem turn_read_of_some {i : Nat} {r : Reader} (here : s.readers[i]? = some r) :
    s.turn (.read i) = ⟨s.readers.set i (r.read s.known).1, (r.read s.known).2⟩ := by
  simp only [turn, here]

theorem turn_read_of_none {i : Nat} (nobody : s.readers[i]? = none) : s.turn (.read i) = s := by
  simp only [turn, nobody]

theorem sound_turn (sound : s.known.Sound) (t : Turn) : (s.turn t).known.Sound := by
  cases t with
  | read i =>
      cases here : s.readers[i]? with
      | none =>
          rw [turn_read_of_none here]
          exact sound
      | some r =>
          rw [turn_read_of_some here]
          exact r.sound_read sound
  | call c => exact sound.perform c

theorem follow_start (sources : List Source) (known : Interner) :
    (start sources known).Follow sources [] := by
  constructor
  · simp [start]
  · intro i source here
    refine ⟨.ofSource source, ?_, Reader.follows_ofSource source known⟩
    simp [start, here]

/-- The reader whose turn it is makes its own step, and for the others the interner has
grown. -/
theorem Follow.read (follow : s.Follow sources turns) (sound : s.known.Sound) (j : Nat) :
    (s.turn (.read j)).Follow sources (turns ++ [.read j]) := by
  cases here : s.readers[j]? with
  | none =>
      rw [turn_read_of_none here]
      refine ⟨follow.size, fun i source there => ?_⟩
      obtain ⟨r, isReader, follows⟩ := follow.reader i source there
      have other : j ≠ i := by
        rintro rfl
        simp [here] at isReader
      refine ⟨r, isReader, ?_⟩
      simpa [Turn.reads_snoc, Turn.isRead, other] using follows
  | some reader =>
      have inside : j < s.readers.length := (List.getElem?_eq_some_iff.mp here).1
      rw [turn_read_of_some here]
      constructor
      · simpa using follow.size
      · intro i source there
        obtain ⟨r, isReader, follows⟩ := follow.reader i source there
        by_cases own : j = i
        · subst own
          obtain rfl := Option.some.inj (here.symm.trans isReader)
          refine ⟨(reader.read s.known).1, List.getElem?_set_self inside, ?_⟩
          simpa [Turn.reads_snoc, Turn.isRead] using follows.read sound
        · refine ⟨r, by simpa [own] using isReader, ?_⟩
          have frame := follows.mono (reader.grows_read s.known)
          simpa [Turn.reads_snoc, Turn.isRead, own] using frame

theorem Follow.call (follow : s.Follow sources turns) (c : Interner.Call) :
    (s.turn (.call c)).Follow sources (turns ++ [.call c]) := by
  refine ⟨follow.size, fun i source there => ?_⟩
  obtain ⟨r, isReader, follows⟩ := follow.reader i source there
  refine ⟨r, isReader, ?_⟩
  have frame := follows.mono (s.known.grows_perform c)
  simpa [turn, Turn.reads_snoc, Turn.isRead] using frame

theorem sound_after (sound : s.known.Sound) (turns : List Turn) : (s.after turns).known.Sound := by
  induction turns using List.reverseRecOn with
  | nil => exact sound
  | append_singleton turns t ih =>
      rw [after_snoc]
      exact sound_turn ih t

theorem follow_after (sources : List Source) {known : Interner} (sound : known.Sound)
    (turns : List Turn) : ((start sources known).after turns).Follow sources turns := by
  induction turns using List.reverseRecOn with
  | nil => exact follow_start sources known
  | append_singleton turns t ih =>
      have soundThen : ((start sources known).after turns).known.Sound := sound_after sound turns
      rw [after_snoc]
      cases t with
      | read j => exact ih.read soundThen j
      | call c => exact ih.call c

theorem Follow.follows_getElem (follow : s.Follow sources turns) {i : Nat}
    (inside : i < s.readers.length) (inside' : i < sources.length) :
    s.readers[i].Follows sources[i] (Turn.reads i turns) s.known := by
  obtain ⟨r, isReader, follows⟩ := follow.reader i sources[i] (List.getElem?_eq_getElem inside')
  obtain ⟨_, rfl⟩ := List.getElem?_eq_some_iff.mp isReader
  exact follows

/-! ## What symbols mean -/

theorem Follow.resolve?_symbol (follow : s.Follow sources turns) :
    ∀ m ∈ s.mentions sources, (s.known.resolve? m.symbol).map Utf8.encode = some m.spelling := by
  intro m member
  obtain ⟨_, someReader, inReader⟩ := List.mem_flatten.mp member
  obtain ⟨i, there⟩ := List.mem_iff_getElem?.mp someReader
  obtain ⟨source, r, isSource, isReader, rfl⟩ := List.getElem?_zipWith_eq_some.mp there
  obtain ⟨_, isReader', follows⟩ := follow.reader i source isSource
  obtain rfl := Option.some.inj (isReader.symm.trans isReader')
  obtain ⟨t, taken, mentioned⟩ := List.mem_filterMap.mp inReader
  obtain ⟨symbol, carries, rfl⟩ := Option.map_eq_some_iff.mp mentioned
  exact follows.named t taken symbol carries

/-- **Readers that share an interner do not disturb each other**, whatever calls there were
before, whatever turns they take and whatever calls come in between. -/
theorem readers_undisturbed (prior : List Interner.Call) (sources : List Source)
    (turns : List Turn) :
    ((start sources (Interner.empty.after prior)).after turns).Undisturbed sources turns := by
  have sound := Interner.sound_empty.after prior
  have follow := follow_after sources sound turns
  refine ⟨follow, ?_, follow.resolve?_symbol⟩
  intro m member other member'
  have final : ((start sources (Interner.empty.after prior)).after turns).known.Sound :=
    sound_after sound turns
  exact final.symbol_eq_iff (follow.resolve?_symbol m member) (follow.resolve?_symbol other member')

/-- Two readers that meet the same name, one after the index is let go, and a call from
outside with another. -/
theorem readers_undisturbed_release :
    let one := Source.padded "one" [0x61, 0x20, 0x62, 0x3F] (by decide)
    let two := Source.padded "two" [0x69, 0x66, 0x20, 0x62, 0x22, 0x0A] (by decide)
    let turns : List Turn := [.read 0, .read 1, .call .release, .read 1, .call (.intern "c"),
      .read 0, .read 1, .read 0]
    let s := (start [one, two] (Interner.empty.after [.intern "b"])).after turns
    s.Undisturbed [one, two] turns ∧
      (s.mentions [one, two]).map Mention.spelling = [[0x61], [0x62], [0x62]] ∧
      ∃ r, s.readers[1]? = some r ∧ r.Follows two 3 s.known ∧
        r.taken.map Token.kind = [.keyword .ifKw, .identifier, .literal .string] := by
  intro one two turns s
  have undisturbed := readers_undisturbed [.intern "b"] [one, two] turns
  obtain ⟨r, isReader, follows⟩ := undisturbed.reader 1 two rfl
  refine ⟨undisturbed, by decide +kernel, r, isReader, follows, ?_⟩
  have taken : (s.readers[1]?).map (fun r => r.taken.map Token.kind) =
      some [.keyword .ifKw, .identifier, .literal .string] := by decide +kernel
  rw [isReader] at taken
  exact Option.some.inj taken

end Sharing

end Lexis
