/-
# Lexis.Proofs.Lines -- where a line starts, where it ends, and what is shown of it

Every text is some whole lines and the start of one more (`exists_lastLine`), and so every
place in it stands on a line (`exists_split`).  The searches back and forth from an offset
find just this: where whole lines stand before `before` and the end of a line stands behind
`after`, the line of the place between is `before ++ after` (`lineBounds_eq`), and its
column counts `before` (`column_stepOverAll_append`).

What is shown of a line is without its carriage return, which every other byte outlives
(`getElem?_dropReturn`), and holds no line feed for any offset, also past the end
(`lineFeed_notMem_lineAt`).  Under it, the bytes before a caret take the room of the bytes
above them, however wide a tab is (`screenColumn_map_blankOf`).
-/
import Lexis.Proofs.LineByLine
import Mathlib.Data.List.Induction

namespace Lexis

set_option autoImplicit false

/-! ## Whole lines, and the start of one more -/

theorem exists_lastLine (text : List UInt8) :
    ∃ front last, text = front ++ last ∧ EndsLine front ∧ Byte.lineFeed ∉ last := by
  induction text using List.reverseRecOn with
  | nil => exact ⟨[], [], rfl, .inl rfl, List.not_mem_nil⟩
  | append_singleton text b ih =>
      obtain ⟨front, last, rfl, closed, oneLine⟩ := ih
      by_cases feed : b = Byte.lineFeed
      · refine ⟨front ++ last ++ [b], [], by simp, .inr ?_, List.not_mem_nil⟩
        simp [feed]
      · refine ⟨front, last ++ [b], by simp, closed, ?_⟩
        simp [oneLine, Ne.symm feed]

/-- What is ahead is the rest of a line, and more lines behind its line feed. -/
theorem exists_firstLine (text : List UInt8) :
    ∃ first back, text = first ++ back ∧ Byte.lineFeed ∉ first ∧ AtLineEnd back := by
  refine ⟨text.takeWhile (· != Byte.lineFeed), text.dropWhile (· != Byte.lineFeed),
    List.takeWhile_append_dropWhile.symm, lineFeed_notMem_takeWhile text, ?_⟩
  intro b first
  simpa using head?_dropWhile first

namespace EndsLine

variable {front before : List UInt8}

theorem column_stepOverAll (closed : EndsLine front) :
    (Position.start.stepOverAll front).column = 1 := by
  rcases closed with rfl | last
  · rfl
  · obtain ⟨init, rfl⟩ := List.getLast?_eq_some_iff.mp last
    rw [Position.stepOverAll_append]
    rfl

/-- A column counts what stands on its line before it. -/
theorem column_stepOverAll_append (closed : EndsLine front) (oneLine : Byte.lineFeed ∉ before) :
    (Position.start.stepOverAll (front ++ before)).column = before.length + 1 := by
  rw [Position.stepOverAll_append, Position.stepOverAll_of_no_lineFeed _ _ oneLine]
  simp only [Position.onLine, closed.column_stepOverAll]
  omega

end EndsLine

/-! ## Searching back and forth -/

namespace Source

variable {s : Source} {front before after back : List UInt8}

theorem byte_eq_of_split {b : UInt8} {ahead : List UInt8} (split : s.bytes = front ++ b :: ahead) :
    s.byte front.length = b := by
  rw [byte_eq_getD, split]
  simp

theorem lineStart_of_endsLine (closed : EndsLine front) (split : s.bytes = front ++ back) :
    s.lineStart front.length = front.length := by
  rcases closed with rfl | last
  · rfl
  · obtain ⟨init, rfl⟩ := List.getLast?_eq_some_iff.mp last
    rw [List.append_assoc] at split
    have feed : s.byte init.length = Byte.lineFeed := byte_eq_of_split split
    rw [List.length_append, List.length_singleton, lineStart, feed]
    rfl

/-- The search back from a place stops where the last whole line ends. -/
theorem lineStart_eq (closed : EndsLine front) (oneLine : Byte.lineFeed ∉ before)
    (split : s.bytes = front ++ (before ++ back)) :
    s.lineStart (front.length + before.length) = front.length := by
  induction before using List.reverseRecOn generalizing back with
  | nil => exact lineStart_of_endsLine closed split
  | append_singleton before b ih =>
      have notFeed : b ≠ Byte.lineFeed := fun feed => oneLine (by simp [feed])
      have shorter : Byte.lineFeed ∉ before := fun member => oneLine (by simp [member])
      have here : s.byte (front.length + before.length) = b := by
        rw [← List.length_append]
        apply byte_eq_of_split
        simpa using split
      rw [List.append_assoc] at split
      rw [List.length_append, List.length_singleton, ← Nat.add_assoc, lineStart, here,
        if_neg (by simpa using notFeed)]
      exact ih shorter split

/-- The search ahead from a place stops where the line ends. -/
theorem lineEnd_eq (oneLine : Byte.lineFeed ∉ after) (ends : AtLineEnd back)
    (split : s.bytes = front ++ (after ++ back)) :
    s.lineEnd front.length = front.length + after.length := by
  have total : s.length = front.length + (after.length + back.length) := by
    rw [← length_bytes, split, List.length_append, List.length_append]
  have whole : front.length + (s.length - front.length) = s.length := by omega
  have searched : s.lineEnd front.length =
      s.endOfRun (fun b => !(b == Byte.lineFeed)) front.length (s.length - front.length) := by
    rw [← Cursor.find?_eq, whole]
    rfl
  have stops := Cursor.drop_endOfRun s (fun b => !(b == Byte.lineFeed)) front.length _ whole
  rw [← searched, split, List.drop_left] at stops
  -- What is left where the search stops is `back`, so it has passed as many bytes as `after` has.
  have onLine : ∀ b ∈ after, (!(b == Byte.lineFeed)) = true := bne_lineFeed oneLine
  have kept : (after ++ back).dropWhile (fun b => !(b == Byte.lineFeed)) = back := by
    rw [List.dropWhile_append_of_pos onLine]
    cases back with
    | nil => rfl
    | cons b tail => simp [ends b rfl]
  rw [kept] at stops
  have lengths := congrArg List.length stops
  have bound : s.lineEnd front.length ≤ s.length := s.lineEnd_le (by omega)
  rw [List.length_drop, List.length_append, List.length_append] at lengths
  have further : front.length ≤ s.lineEnd front.length := s.le_lineEnd (by omega)
  omega

/-- Every place stands on a line, behind whole lines and before the end of its own. -/
theorem exists_split (s : Source) {place : Nat} (inside : place ≤ s.length) :
    ∃ front before after back, s.bytes = front ++ (before ++ (after ++ back)) ∧
      place = front.length + before.length ∧ EndsLine front ∧ Byte.lineFeed ∉ before ∧
      Byte.lineFeed ∉ after ∧ AtLineEnd back := by
  obtain ⟨front, before, passed, closed, onLine⟩ := exists_lastLine (s.bytes.take place)
  obtain ⟨after, back, ahead, goesOn, ends⟩ := exists_firstLine (s.bytes.drop place)
  refine ⟨front, before, after, back, ?_, ?_, closed, onLine, goesOn, ends⟩
  · rw [← List.append_assoc, ← passed, ← ahead, List.take_append_drop]
  · rw [← List.length_append, ← passed, List.length_take, length_bytes, Nat.min_eq_left inside]

/-- The line of a place is what stands on both sides of it up to line feeds. -/
theorem lineBounds_eq (closed : EndsLine front) (onLine : Byte.lineFeed ∉ before)
    (goesOn : Byte.lineFeed ∉ after) (ends : AtLineEnd back)
    (split : s.bytes = front ++ (before ++ (after ++ back))) :
    s.lineBounds (front.length + before.length) =
      (front.length, front.length + (before ++ after).length) := by
  have inside : front.length + before.length ≤ s.length := by
    rw [← length_bytes, split, List.length_append, List.length_append]
    omega
  have stop : s.lineEnd (front ++ before).length = (front ++ before).length + after.length := by
    apply lineEnd_eq goesOn ends
    simpa using split
  rw [List.length_append] at stop
  unfold lineBounds
  dsimp only
  rw [Nat.min_eq_left inside, lineStart_eq closed onLine split, stop, List.length_append,
    Nat.add_assoc]

theorem lineAt_eq (closed : EndsLine front) (onLine : Byte.lineFeed ∉ before)
    (goesOn : Byte.lineFeed ∉ after) (ends : AtLineEnd back)
    (split : s.bytes = front ++ (before ++ (after ++ back))) :
    s.lineAt (front.length + before.length) = Line.dropReturn (before ++ after) := by
  have inside : front.length + (before ++ after).length ≤ s.length := by
    rw [← length_bytes, split]
    simp only [List.length_append]
    omega
  have line : s.bytes = (front ++ (before ++ after)) ++ back := by simpa using split
  unfold lineAt
  rw [lineBounds_eq closed onLine goesOn ends split]
  dsimp only
  rw [slice_eq s inside, ← List.length_append, line, List.take_left, List.drop_left]

/-- An offset past the end stands for the end. -/
theorem lineBounds_min (s : Source) (offset : Nat) :
    s.lineBounds (min offset s.length) = s.lineBounds offset := by
  unfold lineBounds
  dsimp only
  rw [Nat.min_eq_left (Nat.min_le_right offset s.length)]

end Source

/-! ## The line as it is shown -/

theorem Line.dropReturn_prefix (line : List UInt8) : dropReturn line <+: line := by
  unfold dropReturn
  split
  · exact List.dropLast_prefix line
  · exact List.prefix_refl line

/-- What is shown is on one line, wherever the offset is. -/
theorem Source.lineFeed_notMem_lineAt (s : Source) (offset : Nat) :
    Byte.lineFeed ∉ s.lineAt offset := by
  obtain ⟨front, before, after, back, split, place, closed, onLine, goesOn, ends⟩ :=
    s.exists_split (Nat.min_le_right offset s.length)
  have clamped : s.lineAt offset = s.lineAt (min offset s.length) := by
    unfold lineAt
    rw [s.lineBounds_min]
  rw [clamped, place, lineAt_eq closed onLine goesOn ends split]
  intro member
  have inLine := (Line.dropReturn_prefix _).subset member
  exact (List.mem_append.mp inLine).elim onLine goesOn

namespace Line

/-- Dropping a carriage return takes no other byte away. -/
theorem getElem?_dropReturn {bytes : List UInt8} {i : Nat} {b : UInt8}
    (here : bytes[i]? = some b) (notReturn : b ≠ Byte.carriageReturn) :
    (dropReturn bytes)[i]? = some b := by
  unfold dropReturn
  split
  · rename_i returns
    obtain ⟨init, rfl⟩ := List.getLast?_eq_some_iff.mp returns
    rw [List.dropLast_concat]
    by_cases inside : i < init.length
    · rwa [List.getElem?_append_left inside] at here
    · rw [List.getElem?_append_right (by omega)] at here
      have isReturn := List.mem_singleton.mp (List.mem_of_getElem? here)
      exact absurd isReturn notReturn
  · exact here

/-! ### Tabs -/

/-- The screen column behind a byte, from the one before it: a tab goes on to the next
multiple of the width. -/
def afterByte (width column : Nat) (b : UInt8) : Nat :=
  if b = Byte.tab then (column / width + 1) * width else column + 1

/-- The screen column behind the bytes, which start in the first, column zero. -/
def screenColumn (width : Nat) (bytes : List UInt8) : Nat :=
  bytes.foldl (afterByte width) 0

theorem blankOf_eq (b : UInt8) : blankOf b = Byte.space ∨ blankOf b = Byte.tab := by
  unfold blankOf
  split
  · exact .inr rfl
  · exact .inl rfl

theorem afterByte_blankOf (width column : Nat) (b : UInt8) :
    afterByte width column (blankOf b) = afterByte width column b := by
  by_cases isTab : b = Byte.tab
  · simp [blankOf, isTab]
  · have notTab : Byte.space ≠ Byte.tab := by decide
    simp [afterByte, blankOf, isTab, notTab]

/-- Blanks take the room of the bytes they stand for. -/
theorem screenColumn_map_blankOf (width : Nat) (bytes : List UInt8) :
    screenColumn width (bytes.map blankOf) = screenColumn width bytes := by
  unfold screenColumn
  rw [List.foldl_map]
  simp only [afterByte_blankOf]

/-- A marker is blanks and a caret. -/
theorem mem_marker {line : List UInt8} {column : Nat} {b : UInt8}
    (member : b ∈ marker line column) : b ∈ [Byte.space, Byte.tab, Byte.caret] := by
  simp only [marker, List.mem_append, List.mem_map, List.mem_replicate,
    List.mem_singleton] at member
  rcases member with (⟨other, _, rfl⟩ | ⟨_, rfl⟩) | rfl
  · rcases blankOf_eq other with blank | blank <;> simp [blank]
  · simp
  · simp

/-- Below a byte of the line no more blanks are needed than the line has bytes. -/
theorem marker_eq {line : List UInt8} {column : Nat} (inside : column ≤ line.length) :
    marker line column = (line.take (column - 1)).map blankOf ++ [Byte.caret] := by
  have none_more : column - 1 - line.length = 0 := by omega
  simp [marker, none_more]

end Line

end Lexis
