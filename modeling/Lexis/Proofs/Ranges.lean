/-
# Lexis.Proofs.Ranges -- the numbers of a scan stay in range

Between two moves a head stands at a point of the scan.  `Head.step?` is the next move: over
a line feed, or to where the cursor went before the position follows it (`Head.syncTo?`).
Skipping trivia and taking a token are such moves, one after the other (`reaches_next`), so
what every move keeps holds at every point of every run.

A line costs a byte before it and so does a column, so the line and the column together are
hardly more than the offset (`Position.InRange`).  A move keeps that, and it keeps the
position where the cursor is (`Within.step`).  In a text that is shorter than the greatest
word no sum is too great then and no difference negative, and so words of 32 bits do as well
as numbers.
-/
import Lexis.Cursor.Call
import Lexis.Proofs.Streams
import Lexis.Proofs.Words
import Mathlib.Logic.Relation

namespace Lexis

set_option autoImplicit false

/-! ## Points of a scan -/

/-- Lines and columns are counted from one, and each further one takes a byte. -/
structure Position.InRange (p : Position) : Prop where
  one_le_line : 1 ≤ p.line
  one_le_column : 1 ≤ p.column
  line_add_column_le : p.line + p.column ≤ p.offset + 2

namespace Head

/-- Where the cursor goes before the position follows it: over blanks, a comment or a lexeme. -/
def syncTo? (h : Head) : Option Cursor :=
  if h.cursor.current = Byte.lineFeed then none
  else if Byte.isBlank h.cursor.current then some (h.cursor.skipWhile Byte.isBlank)
  else if h.cursor.current = Byte.hash then some h.cursor.skipLine
  else if h.cursor.atEnd then none
  else some h.cursor.read.stop

/-- The next move of a scan, unless it is at the end. -/
def step? (h : Head) : Option Head :=
  if h.cursor.current = Byte.lineFeed then some h.feedLine else h.syncTo?.map h.moveTo

/-- The scan comes from one head to the other. -/
def Reaches : Head → Head → Prop :=
  Relation.ReflTransGen fun h k => h.step? = some k

/-- The head is in a source, its position is where its cursor is, and in range. -/
structure Within (source : Source) (h : Head) : Prop where
  source_eq : h.cursor.source = source
  inStep : h.position.offset = h.cursor.index
  inRange : h.position.InRange

end Head

/-- No check of a scan over the bytes ahead fails, and so what was passed can be counted. -/
structure Cursor.Scans (c : Cursor) : Prop where
  advance : c.raw.advance = .ok c.advance.raw
  /-- A sum of words that saturates goes to the end as well. -/
  advanceBy : ∀ n, n ≤ Source.maxLength → c.words.advanceBy (.ofNat n) = (c.advanceBy n).words
  skipWhile : ∀ inClass, c.raw.skipWhile inClass = .ok (c.skipWhile inClass).raw ∧
    Checked.sub (c.skipWhile inClass).index c.index = .ok (c.distance (c.skipWhile inClass))
  skipLine : c.raw.skipLine = .ok c.skipLine.raw ∧
    Checked.sub c.skipLine.index c.index = .ok (c.distance c.skipLine)
  seek : ∀ delimiter, c.raw.seek delimiter = .ok (rawFound (c.seek delimiter))

/-- The numbers of every run over a source stay in range, and words of 32 bits give the same. -/
structure Source.InRange {σ : Type} [Sink σ] (source : Source) (sink : σ) (known : Interner) :
    Prop where
  /-- Every run stops at a point of the scan; a head has one next move, so all heads on the
  way there are points too. -/
  reached : ∀ ps, (Head.ofSource source).Reaches
    ((Scanner.ofSource source sink).pulls known ps).scanner.head
  point : ∀ h, (Head.ofSource source).Reaches h → h.Within source ∧
    h.position.line ≤ source.length + 1 ∧ h.position.column ≤ source.length + 1
  /-- A line feed is passed without an overflow. -/
  feed : ∀ h, (Head.ofSource source).Reaches h → h.cursor.current = Byte.lineFeed →
    h.raw.feedLine = .ok h.feedLine.raw
  /-- A position follows the cursor without an underflow or an overflow, and what it passes
  then can be counted. -/
  sync : ∀ h d, (Head.ofSource source).Reaches h → h.syncTo? = some d →
    h.position.offset ≤ d.index ∧ d.index ≤ source.length ∧
      h.raw.sync d.raw = .ok (h.moveTo d).raw ∧
      Checked.sub (h.moveTo d).position.offset h.position.offset =
        .ok (d.index - h.position.offset)
  scans : ∀ c : Cursor, c.source = source → c.Scans
  token : ∀ ps, ∀ t ∈ ((Scanner.ofSource source sink).pulls known ps).tokens.flatten,
    t.position.InRange ∧ t.stop ≤ source.length ∧
      Checked.add t.position.offset t.length = .ok t.stop
  /-- A run in words gives the same tokens and names, has reported the same, and stands at
  the same place. -/
  words : ∀ ps,
    let run := (Scanner.ofSource source sink).pulls known ps
    let words := (WordScanner.ofSource source sink).pulls known ps
    words.tokens.map (List.map WordToken.plain) = run.tokens ∧ words.known = run.known ∧
      words.scanner.reporter = run.scanner.reporter ∧
      words.scanner.head.position.plain = run.scanner.head.position ∧
      words.scanner.head.cursor.index.toNat = run.scanner.head.cursor.index

/-! ## Positions -/

namespace Position.InRange

variable {p : Position}

theorem start : Position.start.InRange := ⟨Nat.le_refl _, Nat.le_refl _, Nat.le_refl _⟩

theorem stepOver (inRange : p.InRange) (b : UInt8) : (p.stepOver b).InRange := by
  obtain ⟨line, column, sum⟩ := inRange
  unfold Position.stepOver
  split
  · constructor <;> dsimp only <;> omega
  · constructor <;> dsimp only <;> omega

theorem onLine (inRange : p.InRange) {offset : Nat} (behind : p.offset ≤ offset) :
    (p.onLine offset).InRange := by
  obtain ⟨line, column, sum⟩ := inRange
  constructor <;> dsimp only [Position.onLine] <;> omega

end Position.InRange

/-! ## Moves -/

namespace Head

variable {source : Source} {h k : Head} {d : Cursor}

/-- The cursor passes bytes before the position follows it. -/
theorem exists_passes (target : h.syncTo? = some d) : ∃ passed, h.cursor.Passes passed d := by
  unfold syncTo? at target
  split at target
  · cases target
  split at target
  · cases target
    exact ⟨_, h.cursor.passes_skipWhile _⟩
  split at target
  · cases target
    exact ⟨_, h.cursor.passes_skipTo _⟩
  split at target
  · cases target
  · rename_i ahead
    cases target
    obtain ⟨spelling, passes, _⟩ := Cursor.reads_read (mt (Cursor.atEnd_iff _).mpr ahead)
    exact ⟨spelling, passes⟩

theorem within_ofSource (source : Source) : (ofSource source).Within source :=
  ⟨rfl, rfl, .start⟩

namespace Within

theorem offset_le (within : h.Within source) (target : h.syncTo? = some d) :
    h.position.offset ≤ d.index := by
  obtain ⟨passed, passes⟩ := exists_passes target
  rw [within.inStep, passes.index_eq]
  exact Nat.le_add_right _ _

/-- Every move keeps the position with the cursor, and in range. -/
theorem step (within : h.Within source) (move : h.step? = some k) : k.Within source := by
  unfold step? at move
  split at move
  · rename_i feed
    cases move
    have inside := Cursor.not_atEnd_of_current_ne_zero (c := h.cursor) (by rw [feed]; decide)
    refine ⟨h.cursor.source_advance.trans within.source_eq, ?_, ?_⟩
    · rw [feedLine, Position.offset_stepOver, Cursor.index_advance inside, within.inStep]
    · exact within.inRange.stepOver Byte.lineFeed
  · obtain ⟨d, target, rfl⟩ := Option.map_eq_some_iff.mp move
    obtain ⟨passed, passes⟩ := exists_passes target
    exact ⟨passes.source_eq.trans within.source_eq, rfl,
      within.inRange.onLine (within.offset_le target)⟩

theorem index_le (within : h.Within source) : h.cursor.index ≤ source.length := by
  rw [← within.source_eq]
  exact h.cursor.index_le

theorem tracks (within : h.Within source) (short : source.length < Source.maxLength) :
    h.Tracks := by
  obtain ⟨line, column, sum⟩ := within.inRange
  refine ⟨within.inStep, by omega, by omega, ?_⟩
  rw [within.source_eq]
  exact short

end Within

/-- What every move keeps holds wherever a scan comes to. -/
theorem Reaches.within (reached : (ofSource source).Reaches h) : h.Within source := by
  induction reached with
  | refl => exact within_ofSource source
  | tail _ move ih => exact ih.step move

/-! ## Runs -/

theorem step?_of_feed (feed : h.cursor.current = Byte.lineFeed) : h.step? = some h.feedLine :=
  if_pos feed

theorem step?_of_syncTo? (target : h.syncTo? = some d) : h.step? = some (h.moveTo d) := by
  have noFeed : h.cursor.current ≠ Byte.lineFeed := by
    intro feed
    rw [syncTo?, if_pos feed] at target
    cases target
  rw [step?, if_neg noFeed, target, Option.map_some]

theorem reaches_skipTrivia (h : Head) : h.Reaches h.skipTrivia := by
  fun_induction skipTrivia h with
  | case1 h feed ih => exact .head (step?_of_feed feed) ih
  | case2 h noFeed blank ih =>
      have target : h.syncTo? = some (h.cursor.skipWhile Byte.isBlank) := by
        rw [syncTo?, if_neg noFeed, if_pos blank]
      exact .head (step?_of_syncTo? target) ih
  | case3 h noFeed noBlank sign ih =>
      have target : h.syncTo? = some h.cursor.skipLine := by
        rw [syncTo?, if_neg noFeed, if_neg noBlank, if_pos sign]
      exact .head (step?_of_syncTo? target) ih
  | case4 h => exact .refl

/-- Behind trivia, what is read is a lexeme. -/
theorem syncTo?_skipTrivia (h : Head) (more : h.skipTrivia.cursor.atEnd = false) :
    h.skipTrivia.syncTo? = some h.skipTrivia.cursor.read.stop := by
  fun_induction skipTrivia h with
  | case1 h feed ih => exact ih more
  | case2 h noFeed blank ih => exact ih more
  | case3 h noFeed noBlank sign ih => exact ih more
  | case4 h noFeed noBlank noSign =>
      rw [syncTo?, if_neg noFeed, if_neg noBlank, if_neg noSign, if_neg (by rw [more]; decide)]

end Head

namespace Scanner

variable {σ : Type} [Sink σ]

theorem position_next (s : Scanner σ) (known : Interner) :
    (s.next known).1.position = s.head.skipTrivia.position := by
  unfold next
  dsimp only
  split <;> rfl

/-- A call of `next` is made of moves. -/
theorem reaches_next (s : Scanner σ) (known : Interner) :
    s.head.Reaches (s.next known).2.1.head := by
  have trivia := s.head.reaches_skipTrivia
  unfold next
  dsimp only
  split
  · exact trivia
  · rename_i ahead
    have target := s.head.syncTo?_skipTrivia (Bool.eq_false_iff.mpr ahead)
    exact .tail trivia (Head.step?_of_syncTo? target)

/-- The scanner is at a point of the scan, and it was at one before each given token. -/
structure Walked (source : Source) (given : List Token) (s : Scanner σ) : Prop where
  reached : (Head.ofSource source).Reaches s.head
  token : ∀ t ∈ given, t.position.InRange ∧ t.stop ≤ source.length

theorem records_walked (source : Source) :
    Records fun given (s : Scanner σ) _ => Walked source given s := by
  intro given s known walked
  have further : (Head.ofSource source).Reaches (s.next known).2.1.head :=
    walked.reached.trans (s.reaches_next known)
  refine ⟨further, ?_⟩
  intro t member
  rcases List.mem_append.mp member with before | now
  · exact walked.token t before
  · rw [List.mem_singleton.mp now]
    have start : (Head.ofSource source).Reaches s.head.skipTrivia :=
      walked.reached.trans s.head.reaches_skipTrivia
    constructor
    · rw [position_next]
      exact start.within.inRange
    · rw [← offset_next walked.reached.within.inStep, further.within.inStep]
      exact further.within.index_le

theorem walked_pulls (source : Source) (sink : σ) (known : Interner) (ps : List Pull) :
    Walked source ((ofSource source sink).pulls known ps).tokens.flatten
      ((ofSource source sink).pulls known ps).scanner := by
  have begins : Walked source [] (ofSource source sink) :=
    ⟨.refl, fun _ none => absurd none List.not_mem_nil⟩
  exact (records_walked source).pulls [] begins ps

end Scanner

/-! ## Checks -/

theorem Cursor.scans (c : Cursor) : c.Scans := by
  constructor
  case advance => exact c.raw_advance
  case advanceBy => exact fun n fits => c.words_advanceBy fits
  case skipWhile =>
    exact fun inClass => ⟨c.raw_skipWhile inClass, Checked.sub_eq (c.le_index_skipWhile inClass)⟩
  case skipLine => exact ⟨c.raw_skipLine, Checked.sub_eq (c.le_index_skipTo _)⟩
  case seek => exact c.raw_seek

/-- A token that ends within a word is what its words say. -/
theorem Token.plain_words {t : Token} (inRange : t.position.InRange)
    (short : t.stop < Source.maxLength) : t.words.plain = t := by
  obtain ⟨line, column, sum⟩ := inRange
  unfold stop at short
  have position : t.position.words.plain = t.position := by
    apply Position.plain_words <;> omega
  have length : (UInt32.ofNat t.length).toNat = t.length := toNat_ofNat_of_le (by omega)
  rw [WordToken.plain, words, position, length]

theorem Token.map_plain_words {tokens : List (List Token)}
    (same : ∀ ts ∈ tokens, ∀ t ∈ ts, t.words.plain = t) :
    (tokens.map (List.map Token.words)).map (List.map WordToken.plain) = tokens := by
  rw [List.map_map]
  refine (List.map_congr_left ?_).trans (List.map_id tokens)
  intro ts pulled
  show (ts.map Token.words).map WordToken.plain = ts
  rw [List.map_map]
  exact (List.map_congr_left (same ts pulled)).trans (List.map_id ts)

namespace Source

/-- **The numbers of a scan stay in range**, in every source that is shorter than the
greatest word, at every point of every run and for every sink and every names: no sum is too
great and no difference negative, and words of 32 bits give the same tokens. -/
theorem arithmetic_inRange {σ : Type} [Sink σ] (source : Source)
    (short : source.length < maxLength) (sink : σ) (known : Interner) :
    source.InRange sink known := by
  have tracks : ∀ h, (Head.ofSource source).Reaches h → h.Tracks :=
    fun h reached => reached.within.tracks short
  constructor
  case reached => exact fun ps => (Scanner.walked_pulls source sink known ps).reached
  case point =>
    intro h reached
    have within := reached.within
    obtain ⟨line, column, sum⟩ := within.inRange
    have inside := within.index_le
    rw [← within.inStep] at inside
    exact ⟨within, by omega, by omega⟩
  case feed => exact fun h reached feed => (tracks h reached).feedLine_eq feed
  case sync =>
    intro h d reached target
    have within := reached.within
    obtain ⟨passed, passes⟩ := Head.exists_passes target
    have behind := within.offset_le target
    have inside : d.index ≤ source.length := by
      rw [← within.source_eq, ← passes.source_eq]
      exact d.index_le
    exact ⟨behind, inside, (tracks h reached).sync_eq passes, Checked.sub_eq behind⟩
  case scans => exact fun c _ => c.scans
  case token =>
    intro ps t member
    obtain ⟨inRange, inside⟩ := (Scanner.walked_pulls source sink known ps).token t member
    exact ⟨inRange, inside, Checked.add_eq (Nat.le_trans inside source.length_le_max)⟩
  case words =>
    intro ps
    have walked := Scanner.walked_pulls source sink known ps
    have last := tracks _ walked.reached
    have same : ∀ ts ∈ ((Scanner.ofSource source sink).pulls known ps).tokens, ∀ t ∈ ts,
        t.words.plain = t := by
      intro ts pulled t member
      obtain ⟨inRange, inside⟩ := walked.token t (List.mem_flatten_of_mem pulled member)
      exact Token.plain_words inRange (Nat.lt_of_le_of_lt inside short)
    dsimp only
    rw [← Scanner.words_ofSource, Scanner.words_pulls (Head.tracks_ofSource short)]
    exact ⟨Token.map_plain_words same, rfl, rfl, last.plain_position, Cursor.toNat_index_words _⟩

/-- A word, a mark on the next line, and a comment that nothing ends. -/
theorem arithmetic_inRange_comment :
    let source := Source.padded "comment" [0x69, 0x66, 0x0A, 0x20, 0x2B, 0x23] (by decide)
    source.length < maxLength ∧ source.InRange Backlog.empty .empty ∧
      ((WordScanner.ofSource source Backlog.empty).pulls .empty [.one, .rest]).tokens.map
          (List.map WordToken.plain) =
        [[⟨.keyword .ifKw, ⟨1, 1, 0⟩, 2⟩],
          [⟨.punctuation .plus, ⟨2, 2, 4⟩, 1⟩, .eof ⟨2, 4, 6⟩]] := by
  intro source
  have short : source.length < maxLength := by decide
  have inRange := source.arithmetic_inRange short Backlog.empty .empty
  refine ⟨short, inRange, ?_⟩
  rw [(inRange.words [.one, .rest]).1]
  decide +kernel

end Source

end Lexis
