/-
# Lexis.Proofs.Offsets -- offsets, and lines and columns

The line of an offset is found by searching back and forth from it; its number and the
column are counted from the start of the text.  `OnLine` says what these five numbers are, by
the bytes of the text alone, and the searches and the counting agree with it for every
offset (`onLine_lineBounds`).

A line starts and ends where the line feeds around it are, so its number tells both, and
they tell the number (`OnLine.line_eq_iff`).  Every byte that is stepped over moves a position
forward, in the order of lines first and columns second (`Position.place_lt_stepOver`), so no
two offsets of a text have one line and one column.

What is shown of a line is `lineAt`, which drops one carriage return.  A carriage return
belongs to the end of a line only before a line feed; `lineContent` is the line by that
rule.  The two differ in one case, that of a text that ends in a carriage return
(`lineAt_eq_lineContent_iff`).
-/
import Lexis.Proofs.Lines
import Mathlib.Data.Prod.Lex
import Mathlib.Order.Interval.Set.Defs

namespace Lexis

set_option autoImplicit false

/-- The place is on the line from `start` to `stop`, the one of that number, and in that
column. -/
structure OnLine (text : List UInt8) (place start stop line column : Nat) : Prop where
  start_le : start ≤ place
  le_stop : place ≤ stop
  stop_le : stop ≤ text.length
  oneLine : Byte.lineFeed ∉ (text.take stop).drop start
  opens : start = 0 ∨ text[start - 1]? = some Byte.lineFeed
  closes : stop = text.length ∨ text[stop]? = some Byte.lineFeed
  place_eq : place + 1 = start + column
  line_eq : line = (text.take start).count Byte.lineFeed + 1

/-- The line and the column, ordered by the line first. -/
def Position.place (p : Position) : Nat ×ₗ Nat :=
  toLex (p.line, p.column)

namespace Source

/-- The bytes between the bounds of a line. -/
def lineBytes (s : Source) (offset : Nat) : List UInt8 :=
  s.slice (s.lineBounds offset).1 (s.lineBounds offset).2

/-- The line without what ends it: a line feed, or a carriage return and a line feed. -/
def lineContent (s : Source) (offset : Nat) : List UInt8 :=
  if (s.lineBounds offset).2 < s.length then Line.dropReturn (s.lineBytes offset)
  else s.lineBytes offset

/-- The text ends in a carriage return, and the offset is on its last line. -/
def EndsInReturn (s : Source) (offset : Nat) : Prop :=
  s.bytes.getLast? = some Byte.carriageReturn ∧ Byte.lineFeed ∉ s.bytes.drop offset

end Source

/-! ## Line feeds between two places -/

section Between

variable {text : List UInt8} {i start stop : Nat}

theorem lineFeed_mem_between (feed : text[i]? = some Byte.lineFeed) (after : start ≤ i)
    (before : i < stop) : Byte.lineFeed ∈ (text.take stop).drop start := by
  apply List.mem_of_getElem? (i := i - start)
  rw [List.getElem?_drop, Nat.add_sub_cancel' after, List.getElem?_take_of_lt before]
  exact feed

theorem take_eq_append_between (text : List UInt8) (ordered : start ≤ stop) :
    text.take stop = text.take start ++ (text.take stop).drop start := by
  have front : (text.take stop).take start = text.take start := by
    rw [List.take_take, Nat.min_eq_left ordered]
  rw [← front, List.take_append_drop]

theorem count_lineFeed_lt (feed : text[i]? = some Byte.lineFeed) (after : start ≤ i)
    (before : i < stop) :
    (text.take start).count Byte.lineFeed < (text.take stop).count Byte.lineFeed := by
  have some_feed := List.count_pos_iff.mpr (lineFeed_mem_between feed after before)
  have ordered : start ≤ stop := by omega
  rw [take_eq_append_between text ordered, List.count_append]
  omega

end Between

/-! ## Lines -/

namespace OnLine

variable {text : List UInt8} {place start stop line column : Nat}
  {place' start' stop' line' column' : Nat}

/-- A line of the same number does not start later. -/
theorem start_le_of_line_eq (here : OnLine text place start stop line column)
    (there : OnLine text place' start' stop' line' column') (same : line = line') :
    start' ≤ start := by
  by_contra later
  rcases there.opens with first | feed
  · omega
  · have more : (text.take start).count Byte.lineFeed < (text.take start').count Byte.lineFeed :=
      count_lineFeed_lt feed (by omega) (by omega)
    have counted := here.line_eq
    have counted' := there.line_eq
    omega

/-- A line that starts at the same place does not end later. -/
theorem stop_le_of_start_eq (here : OnLine text place start stop line column)
    (there : OnLine text place' start' stop' line' column') (same : start = start') :
    stop' ≤ stop := by
  by_contra further
  have before := here.start_le
  have behind := here.le_stop
  have inside := there.stop_le
  rcases here.closes with last | feed
  · omega
  · exact there.oneLine (lineFeed_mem_between feed (by omega) (by omega))

/-- The number of a line tells where it starts and ends, and these tell the number. -/
theorem line_eq_iff (here : OnLine text place start stop line column)
    (there : OnLine text place' start' stop' line' column') :
    line = line' ↔ (start, stop) = (start', stop') := by
  rw [Prod.mk.injEq]
  constructor
  · intro same
    have start_eq : start = start' := Nat.le_antisymm
      (there.start_le_of_line_eq here same.symm) (here.start_le_of_line_eq there same)
    exact ⟨start_eq, Nat.le_antisymm (there.stop_le_of_start_eq here start_eq.symm)
      (here.stop_le_of_start_eq there start_eq)⟩
  · rintro ⟨same, _⟩
    rw [here.line_eq, there.line_eq, same]

end OnLine

/-! ## Positions -/

namespace Position

theorem place_lt_stepOver (p : Position) (b : UInt8) : p.place < (p.stepOver b).place := by
  rw [place, place, Prod.Lex.toLex_lt_toLex]
  unfold stepOver
  split
  · exact .inl (Nat.lt_succ_self _)
  · exact .inr ⟨rfl, Nat.lt_succ_self _⟩

theorem place_le_stepOverAll (p : Position) (bytes : List UInt8) :
    p.place ≤ (p.stepOverAll bytes).place := by
  induction bytes generalizing p with
  | nil => exact le_refl _
  | cons b bytes ih => exact (p.place_lt_stepOver b).le.trans (ih _)

/-- Bytes that are stepped over move a position forward. -/
theorem place_lt_stepOverAll (p : Position) {bytes : List UInt8} (some_byte : bytes ≠ []) :
    p.place < (p.stepOverAll bytes).place := by
  obtain ⟨b, rest, rfl⟩ := List.exists_cons_of_ne_nil some_byte
  exact (p.place_lt_stepOver b).trans_le (place_le_stepOverAll _ rest)

end Position

/-! ## Searching and counting -/

namespace Source

variable (s : Source)

theorem lineColumn_min (offset : Nat) :
    s.lineColumn (min offset s.length) = s.lineColumn offset := by
  unfold lineColumn
  dsimp only
  rw [Nat.min_eq_left (Nat.min_le_right offset s.length)]

theorem toLex_lineColumn {offset : Nat} (inside : offset ≤ s.length) :
    toLex (s.lineColumn offset) = (Position.start.stepOverAll (s.bytes.take offset)).place := by
  rw [s.lineColumn_eq inside, Position.place]

end Source

theorem EndsLine.opens {front back : List UInt8} (closed : EndsLine front) :
    front.length = 0 ∨ (front ++ back)[front.length - 1]? = some Byte.lineFeed := by
  rcases closed with rfl | last
  · exact .inl rfl
  · right
    obtain ⟨init, rfl⟩ := List.getLast?_eq_some_iff.mp last
    simp

theorem AtLineEnd.closes {front back : List UInt8} (ends : AtLineEnd back) :
    front.length = (front ++ back).length ∨
      (front ++ back)[front.length]? = some Byte.lineFeed := by
  cases back with
  | nil => simp
  | cons b tail => simp [ends b rfl]

namespace Source

variable (s : Source)

/-- The searches find the line of an offset, and the counting its number and the column. -/
theorem onLine_lineBounds (offset : Nat) :
    OnLine s.bytes (min offset s.length) (s.lineBounds offset).1 (s.lineBounds offset).2
      (s.lineColumn offset).1 (s.lineColumn offset).2 := by
  obtain ⟨front, before, after, back, split, place, closed, onLine, goesOn, ends⟩ :=
    s.exists_split (Nat.min_le_right offset s.length)
  have passed : s.bytes.take (front.length + before.length) = front ++ before := by
    rw [split, ← List.append_assoc, ← List.length_append, List.take_left]
  have inside : front.length + before.length ≤ s.length := by omega
  have counted := s.lineColumn_eq inside
  rw [passed, closed.column_stepOverAll_append onLine, Position.line_stepOverAll] at counted
  rw [← s.lineBounds_min, ← s.lineColumn_min, place, counted,
    lineBounds_eq closed onLine goesOn ends split]
  have line : s.bytes = (front ++ (before ++ after)) ++ back := by simpa using split
  constructor
  case start_le => exact Nat.le_add_right _ _
  case le_stop => simp
  case stop_le => simp [split]
  case oneLine =>
    rw [line, ← List.length_append, List.take_left, List.drop_left]
    simp [onLine, goesOn]
  case opens =>
    rw [split]
    exact closed.opens
  case closes =>
    rw [line, ← List.length_append]
    exact ends.closes
  case place_eq => omega
  case line_eq =>
    rw [split, List.take_left, List.count_append, List.count_eq_zero_of_not_mem onLine]
    show 1 + _ = _
    omega

/-- What is shown of a line is the line, or the line without one carriage return. -/
theorem lineAt_cases (offset : Nat) :
    s.lineAt offset = s.lineBytes offset ∨
      s.lineBytes offset = s.lineAt offset ++ [Byte.carriageReturn] := by
  show Line.dropReturn (s.lineBytes offset) = _ ∨ _ = Line.dropReturn (s.lineBytes offset) ++ _
  unfold Line.dropReturn
  split
  · rename_i returns
    obtain ⟨init, ends⟩ := List.getLast?_eq_some_iff.mp returns
    right
    rw [ends, List.dropLast_concat]
  · exact .inl rfl

/-- Where a text leaves room for its columns, no line and no column needs more than 32 bits. -/
theorem lineColumn_le {s : Source} (short : s.length < maxLength) (offset : Nat) :
    (s.lineColumn offset).1 ≤ maxLength ∧ (s.lineColumn offset).2 ≤ maxLength := by
  have here := s.onLine_lineBounds offset
  have inside := Nat.min_le_right offset s.length
  have line := here.line_eq
  have feeds : (s.bytes.take (s.lineBounds offset).1).count Byte.lineFeed ≤
      (s.lineBounds offset).1 :=
    Nat.le_trans List.count_le_length (by simp)
  have start := here.start_le
  have column := here.place_eq
  omega

theorem strictMonoOn_lineColumn :
    StrictMonoOn (fun offset => toLex (s.lineColumn offset)) (Set.Iic s.length) := by
  intro i before j inside further
  have passed := take_eq_append_between s.bytes (Nat.le_of_lt further)
  have some_byte : (s.bytes.take j).drop i ≠ [] := by
    rw [← List.length_pos_iff, List.length_drop, List.length_take, length_bytes]
    have : j ≤ s.length := inside
    omega
  show toLex (s.lineColumn i) < toLex (s.lineColumn j)
  rw [s.toLex_lineColumn before, s.toLex_lineColumn inside, passed, Position.stepOverAll_append]
  exact Position.place_lt_stepOverAll _ some_byte

/-- Stepping over all bytes before an offset leads to its line and column. -/
theorem stepOverAll_take {offset : Nat} (inside : offset ≤ s.length) :
    Position.start.stepOverAll (s.bytes.take offset) =
      ⟨(s.lineColumn offset).1, (s.lineColumn offset).2, offset⟩ := by
  have reached : (Position.start.stepOverAll (s.bytes.take offset)).offset = offset := by
    rw [Position.offset_stepOverAll_start, List.length_take, length_bytes, Nat.min_eq_left inside]
  rw [s.lineColumn_eq inside]
  generalize Position.start.stepOverAll (s.bytes.take offset) = p at reached ⊢
  subst reached
  rfl

/-- **Offsets and pairs of line and column determine each other.**  For every text that leaves
room for its columns: an offset is on the line of its bounds, in the column and on the line
of that number, as the position that is stepped over all bytes before it says too; greater
offsets of the text have greater pairs; and two offsets are on one line just when their
lines have one number. -/
theorem lineColumn_determines (s : Source) (short : s.length < maxLength) :
    (∀ offset, OnLine s.bytes (min offset s.length)
        (s.lineBounds offset).1 (s.lineBounds offset).2
        (s.lineColumn offset).1 (s.lineColumn offset).2 ∧
      (s.lineAt offset = s.lineBytes offset ∨
        s.lineBytes offset = s.lineAt offset ++ [Byte.carriageReturn]) ∧
      Position.start.stepOverAll (s.bytes.take (min offset s.length)) =
        ⟨(s.lineColumn offset).1, (s.lineColumn offset).2, min offset s.length⟩ ∧
      (s.lineColumn offset).1 ≤ maxLength ∧ (s.lineColumn offset).2 ≤ maxLength) ∧
    StrictMonoOn (fun offset => toLex (s.lineColumn offset)) (Set.Iic s.length) ∧
    Set.InjOn s.lineColumn (Set.Iic s.length) ∧
    ∀ i j, (s.lineColumn i).1 = (s.lineColumn j).1 ↔ s.lineBounds i = s.lineBounds j := by
  have increasing := s.strictMonoOn_lineColumn
  refine ⟨?_, increasing, ?_, ?_⟩
  · intro offset
    have reached := s.stepOverAll_take (Nat.min_le_right offset s.length)
    rw [s.lineColumn_min] at reached
    exact ⟨s.onLine_lineBounds offset, s.lineAt_cases offset, reached, lineColumn_le short offset⟩
  · intro i before j inside same
    exact increasing.injOn before inside (congrArg toLex same)
  · intro i j
    exact (s.onLine_lineBounds i).line_eq_iff (s.onLine_lineBounds j)

/-- A line that a carriage return and a line feed end, a blank line, and a place past the end. -/
theorem lineColumn_determines_blank :
    let source := Source.padded "blank" [0x61, 0x0D, 0x0A, 0x0A, 0x62] (by decide)
    source.length < maxLength ∧
      source.lineBounds 2 = (0, 2) ∧ OnLine source.bytes 2 0 2 1 3 ∧
      source.lineBounds 99 = (4, 5) ∧ OnLine source.bytes 5 4 5 3 2 ∧
      Position.start.stepOverAll (source.bytes.take 5) = ⟨3, 2, 5⟩ ∧
      toLex (source.lineColumn 2) < toLex (source.lineColumn 3) := by
  intro source
  have short : source.length < maxLength := by decide
  have onFeed : source.lineBounds 2 = (0, 2) ∧ source.lineColumn 2 = (1, 3) := by decide +kernel
  have pastEnd : source.lineBounds 99 = (4, 5) ∧ source.lineColumn 99 = (3, 2) := by
    decide +kernel
  obtain ⟨places, increasing, _⟩ := source.lineColumn_determines short
  have onFirst := (places 2).1
  obtain ⟨onLast, _, reached, _⟩ := places 99
  rw [onFeed.1, onFeed.2] at onFirst
  rw [pastEnd.1, pastEnd.2] at onLast
  rw [pastEnd.2] at reached
  have further : toLex (source.lineColumn 2) < toLex (source.lineColumn 3) :=
    increasing (Set.mem_Iic.mpr (by decide)) (Set.mem_Iic.mpr (by decide)) (by decide)
  exact ⟨short, onFeed.1, onFirst, pastEnd.1, onLast, reached, further⟩

end Source

/-! ## The line as it is shown -/

namespace Line

theorem dropReturn_eq_self_iff {line : List UInt8} :
    dropReturn line = line ↔ line.getLast? ≠ some Byte.carriageReturn := by
  unfold dropReturn
  split
  · rename_i returns
    obtain ⟨init, rfl⟩ := List.getLast?_eq_some_iff.mp returns
    simp
  · rename_i other
    simp [other]

theorem dropReturn_append (line : List UInt8) :
    dropReturn (line ++ [Byte.carriageReturn]) = line := by
  simp [dropReturn]

end Line

/-- Behind whole lines a carriage return ends the text if it ends its last line. -/
theorem EndsLine.getLast?_eq_return_iff {front line : List UInt8} (closed : EndsLine front) :
    (front ++ line).getLast? = some Byte.carriageReturn ↔
      line.getLast? = some Byte.carriageReturn := by
  cases line with
  | nil =>
      rw [List.append_nil]
      rcases closed with rfl | last
      · rfl
      · rw [last]
        exact iff_of_false (by decide) (by simp)
  | cons b tail => rw [List.getLast?_append_of_ne_nil _ (List.cons_ne_nil b tail)]

namespace Source

variable (s : Source)

theorem drop_bytes_min (offset : Nat) :
    s.bytes.drop offset = s.bytes.drop (min offset s.length) := by
  rcases Nat.le_total offset s.length with inside | past
  · rw [Nat.min_eq_left inside]
  · rw [Nat.min_eq_right past, List.drop_eq_nil_of_le (by rw [length_bytes]; exact past),
      List.drop_eq_nil_of_le (Nat.le_of_eq s.length_bytes)]

/-- A line stands behind whole lines, and something behind it just where a line feed does. -/
theorem exists_lineBytes (offset : Nat) :
    ∃ front back, s.bytes = front ++ (s.lineBytes offset ++ back) ∧ EndsLine front ∧
      ((s.lineBounds offset).2 < s.length ↔ back ≠ []) ∧
      (Byte.lineFeed ∈ s.bytes.drop offset ↔ back ≠ []) := by
  obtain ⟨front, before, after, back, split, place, closed, onLine, goesOn, ends⟩ :=
    s.exists_split (Nat.min_le_right offset s.length)
  have bounds := lineBounds_eq closed onLine goesOn ends split
  rw [← place, s.lineBounds_min] at bounds
  have whole : s.bytes = (front ++ (before ++ after)) ++ back := by simpa using split
  have total : s.length = front.length + (before ++ after).length + back.length := by
    rw [← length_bytes, whole, List.length_append, List.length_append]
  have line : s.lineBytes offset = before ++ after := by
    rw [lineBytes, bounds]
    dsimp only
    rw [slice_eq s (by omega), whole, ← List.length_append, List.take_left, List.drop_left]
  have behind : s.bytes.drop offset = after ++ back := by
    rw [s.drop_bytes_min, place, split, ← List.append_assoc, ← List.length_append, List.drop_left]
  refine ⟨front, back, ?_, closed, ?_, ?_⟩
  · rw [line, whole, List.append_assoc]
  · rw [bounds, total, ← List.length_pos_iff]
    omega
  · rw [behind]
    cases back with
    | nil => simp [goesOn]
    | cons b tail => simp [ends b rfl]

/-- **What is shown of a line is the line without what ends it**, for every offset, but for
one case.  Where nothing ends the last line and it ends in a carriage return, that one is not
shown either. -/
theorem lineAt_eq_lineContent_iff (offset : Nat) :
    (s.lineAt offset = s.lineContent offset ↔ ¬ s.EndsInReturn offset) ∧
      (s.EndsInReturn offset →
        s.lineContent offset = s.lineAt offset ++ [Byte.carriageReturn]) := by
  obtain ⟨front, back, split, closed, stops, feeds⟩ := s.exists_lineBytes offset
  have shown : s.lineAt offset = Line.dropReturn (s.lineBytes offset) := rfl
  by_cases last : back = []
  · have content : s.lineContent offset = s.lineBytes offset := if_neg (by simp [stops, last])
    have noFeed : Byte.lineFeed ∉ s.bytes.drop offset := by simp [feeds, last]
    have returns : s.EndsInReturn offset ↔
        (s.lineBytes offset).getLast? = some Byte.carriageReturn := by
      rw [EndsInReturn, and_iff_left noFeed, split, last, List.append_nil,
        closed.getLast?_eq_return_iff]
    rw [shown, content, returns, Line.dropReturn_eq_self_iff]
    refine ⟨Iff.rfl, ?_⟩
    intro ends
    obtain ⟨init, same⟩ := List.getLast?_eq_some_iff.mp ends
    rw [same, Line.dropReturn_append]
  · have content : s.lineContent offset = s.lineAt offset := if_pos (stops.mpr last)
    have closed : ¬ s.EndsInReturn offset := fun ends => ends.2 (feeds.mpr last)
    rw [content]
    exact ⟨iff_of_true rfl closed, fun ends => absurd ends closed⟩

/-- The last line of a text of two, which ends in two carriage returns and no line feed. -/
theorem lineAt_eq_lineContent_iff_returns :
    let source := Source.padded "returns" [0x61, 0x0D, 0x0A, 0x62, 0x0D, 0x0D] (by decide)
    source.EndsInReturn 9 ∧ source.lineAt 9 ≠ source.lineContent 9 ∧
      source.lineContent 9 = source.lineAt 9 ++ [Byte.carriageReturn] ∧
      source.lineAt 9 = [0x62, 0x0D] ∧ source.lineAt 1 = source.lineContent 1 := by
  intro source
  have text : source.bytes = [0x61, 0x0D, 0x0A, 0x62, 0x0D, 0x0D] := bytes_padded _ _ _
  have ends : source.EndsInReturn 9 := by simp [EndsInReturn, text]
  have fed : ¬ source.EndsInReturn 1 := by simp [EndsInReturn, text]
  have last := source.lineAt_eq_lineContent_iff 9
  exact ⟨ends, fun same => last.1.mp same ends, last.2 ends, by decide +kernel,
    (source.lineAt_eq_lineContent_iff 1).1.mpr fed⟩

/-- A carriage return at the end of a text is not shown, though no line feed follows it. -/
theorem lineAt_return :
    let source := Source.padded "return" [0x61, 0x0D] (by decide)
    (source.lineBounds 0).2 = source.length ∧ source.lineBytes 0 = [0x61, 0x0D] ∧
      source.lineContent 0 = [0x61, 0x0D] ∧ source.lineAt 0 = [0x61] ∧
      source.lineAt 0 ≠ source.lineContent 0 := by
  decide +kernel

end Source

end Lexis
