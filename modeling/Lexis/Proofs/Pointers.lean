/-
# Lexis.Proofs.Pointers -- a cursor is an index into its text

A cursor looks into a buffer in which zeros follow the text, and it moves by searching that
buffer.  A pointer is a text and an index, with nothing behind the text, and all that it
answers is said by the text (`Pointer.perform`).  `Cursor.pointer` forgets the buffer, and
with it nothing that a call could tell (`Bookmarked.perform_marked`).

A program may also copy a cursor and go back to any copy that it kept.  A `Machine` is what
such a program needs to know of a cursor, so that one program runs on cursors and on
pointers; where one machine answers as another, programs see the same (`Machine.Maps.run_eq`).
`Cursor.isIndex` collects what this says of a source, and that only going back goes back.
-/
import Lexis.Cursor.Call
import Lexis.Proofs.Passage

namespace Lexis

set_option autoImplicit false

/-! ## Pointers -/

/-- A text and an index into it. -/
structure Pointer where
  text : List UInt8
  index : Nat
deriving DecidableEq

namespace Pointer

def ofText (text : List UInt8) : Pointer := ⟨text, 0⟩

def ahead (p : Pointer) : List UInt8 := p.text.drop p.index

def atEnd (p : Pointer) : Bool := p.index == p.text.length

/-- The byte so far ahead, or zero where the text is over. -/
def peek (p : Pointer) (k : Nat) : UInt8 := p.text.getD (p.index + k) 0

/-- So many bytes further, at most to the end. -/
def advanceBy (p : Pointer) (n : Nat) : Pointer :=
  { p with index := min (p.index + n) p.text.length }

def slice (p : Pointer) (start stop : Nat) : List UInt8 :=
  let stop := min stop p.text.length
  (p.text.take stop).drop (min start stop)

/-- The bytes ahead that are of the class, up to the first that is not. -/
def runAhead (p : Pointer) (inClass : UInt8 → Bool) : List UInt8 := p.ahead.takeWhile inClass

def skipWhile (p : Pointer) (inClass : UInt8 → Bool) : Pointer :=
  { p with index := p.index + (p.runAhead inClass).length }

/-- A pointer and the copy of it to which it goes back. -/
structure Marked where
  pointer : Pointer
  saved : Pointer
deriving DecidableEq

def Marked.ofText (text : List UInt8) : Marked := ⟨.ofText text, .ofText text⟩

def perform (m : Marked) : Cursor.Call → Cursor.Answer × Marked
  | .current => (.byte (m.pointer.peek 0), m)
  | .peek k => (.byte (m.pointer.peek k), m)
  | .advance => (.nothing, { m with pointer := m.pointer.advanceBy 1 })
  | .advanceBy n => (.nothing, { m with pointer := m.pointer.advanceBy n })
  | .slice start stop => (.bytes (m.pointer.slice start stop), m)
  | .sliceFrom start => (.bytes (m.pointer.slice start m.pointer.index), m)
  | .skipWhile inClass =>
      (.count (m.pointer.runAhead inClass).length,
        { m with pointer := m.pointer.skipWhile inClass })
  | .skipLine =>
      (.count (m.pointer.runAhead (· != Byte.lineFeed)).length,
        { m with pointer := m.pointer.skipWhile (· != Byte.lineFeed) })
  | .seek delimiter =>
      let stop := m.pointer.skipWhile fun b => b != delimiter && b != Byte.lineFeed
      (.found stop.text[stop.index]?, { m with pointer := stop })
  | .save => (.nothing, { m with saved := m.pointer })
  | .restore => (.nothing, { m with pointer := m.saved })

end Pointer

/-! ### What a cursor points at -/

namespace Cursor

/-- The cursor without its buffer. -/
def pointer (c : Cursor) : Pointer := ⟨c.source.bytes, c.index⟩

variable (c : Cursor)

@[simp] theorem index_pointer : c.pointer.index = c.index := rfl

@[simp] theorem text_pointer : c.pointer.text = c.source.bytes := rfl

theorem peek_pointer (k : Nat) : c.pointer.peek k = c.peek k :=
  (c.source.byte_eq_getD _).symm

theorem atEnd_iff_index : c.atEnd = true ↔ c.index = c.source.length := by
  have := c.index_le
  simp only [atEnd, decide_eq_true_eq]
  omega

theorem atEnd_pointer : c.pointer.atEnd = c.atEnd := by
  rw [Bool.eq_iff_iff, atEnd_iff_index, Pointer.atEnd, beq_iff_eq, text_pointer,
    Source.length_bytes, index_pointer]

theorem pointer_advanceBy (n : Nat) : (c.advanceBy n).pointer = c.pointer.advanceBy n := by
  simp [pointer, advanceBy, Pointer.advanceBy]

theorem pointer_advance : c.advance.pointer = c.pointer.advanceBy 1 := by
  have := c.index_le
  unfold advance
  split
  · rename_i inside
    simp [pointer, Pointer.advanceBy, Nat.min_eq_left inside]
  · rename_i ended
    have atEnd : c.index = c.source.length := by omega
    simp [pointer, Pointer.advanceBy, atEnd]

theorem slice_pointer (start stop : Nat) : c.pointer.slice start stop = c.slice start stop := by
  simp only [Pointer.slice, slice, text_pointer, Source.length_bytes]
  exact (c.source.slice_eq (Nat.min_le_right _ _)).symm

theorem index_skipWhile (inClass : UInt8 → Bool) :
    (c.skipWhile inClass).index = c.index + (c.pointer.runAhead inClass).length :=
  (c.passes_skipWhile inClass).index_eq

theorem pointer_skipWhile (inClass : UInt8 → Bool) :
    (c.skipWhile inClass).pointer = c.pointer.skipWhile inClass := by
  simp only [pointer, Pointer.skipWhile, source_skipWhile, index_skipWhile]

theorem skipTo_eq (inClass : UInt8 → Bool) :
    c.skipTo inClass = c.skipWhile fun b => !inClass b :=
  eq_of_index (c.source_skipTo inClass) (c.index_skipTo inClass)

theorem skipLine_eq : c.skipLine = c.skipWhile (· != Byte.lineFeed) :=
  c.skipTo_eq _

theorem seek_snd (delimiter : UInt8) :
    (c.seek delimiter).2 = c.skipWhile fun b => b != delimiter && b != Byte.lineFeed := by
  rw [seek, skipTo_eq]
  simp only [Bool.not_or]
  rfl

/-- The byte on which a search stops is the one at the index, if there is one. -/
theorem seek_fst_eq (delimiter : UInt8) :
    (c.seek delimiter).1 = c.source.bytes[(c.seek delimiter).2.index]? := by
  rw [seek_fst, rest, List.head?_drop, seek_snd, source_skipWhile]

theorem distance_skipWhile (inClass : UInt8 → Bool) :
    c.distance (c.skipWhile inClass) = (c.pointer.runAhead inClass).length := by
  rw [distance, index_skipWhile, Nat.add_sub_cancel_left]

namespace Bookmarked

/-- What a cursor and its copy point at. -/
def marked (b : Bookmarked) : Pointer.Marked := ⟨b.cursor.pointer, b.saved.pointer⟩

/-- No call tells a cursor from what it points at. -/
theorem perform_marked (b : Bookmarked) (call : Call) :
    Pointer.perform b.marked call = ((perform b call).1, (perform b call).2.marked) := by
  cases call with
  | current | peek => simp only [Pointer.perform, perform, marked, current, peek_pointer]
  | advance | advanceBy =>
      simp only [Pointer.perform, perform, marked, pointer_advance, pointer_advanceBy]
  | slice | sliceFrom =>
      simp only [Pointer.perform, perform, marked, sliceFrom, slice_pointer, index_pointer]
  | skipWhile inClass =>
      simp only [Pointer.perform, perform, marked, distance_skipWhile, pointer_skipWhile]
  | skipLine =>
      simp only [Pointer.perform, perform, marked, skipLine_eq, distance_skipWhile,
        pointer_skipWhile]
  | seek delimiter =>
      have found := b.cursor.seek_fst_eq delimiter
      have stop := b.cursor.seek_snd delimiter
      simp only [Pointer.perform, perform, marked, found, stop, ← pointer_skipWhile,
        text_pointer, index_pointer, source_skipWhile]
  | save | restore => rfl

end Bookmarked

end Cursor

/-! ## Programs -/

/-- One step of a program: a call, a copy that is kept, or a return to a copy, the first
kept being number zero. -/
inductive Move where
  | call (c : Cursor.Call)
  | copy
  | back (k : Nat)

/-- The moves that stay where they are or go on. -/
def Move.Forward : Move → Prop
  | .call c => c ≠ .restore
  | .copy => True
  | .back _ => False

/-- What is seen of a move: the answer, where the cursor is then, and whether at the end. -/
structure Seen where
  answer : Cursor.Answer
  index : Nat
  atEnd : Bool
deriving DecidableEq

/-- A cursor, or what stands for one, with the copies of it that are kept. -/
structure Copied (α : Type) where
  now : α
  copies : List α

namespace Copied

variable {α β : Type}

def start (a : α) : Copied α := ⟨a, []⟩

def map (f : α → β) (s : Copied α) : Copied β := ⟨f s.now, s.copies.map f⟩

/-- The property holds of what is there and of every copy. -/
structure All (P : α → Prop) (s : Copied α) : Prop where
  now : P s.now
  copies : ∀ a ∈ s.copies, P a

end Copied

/-- What programs use of a cursor. -/
structure Machine (α : Type) where
  perform : α → Cursor.Call → Cursor.Answer × α
  index : α → Nat
  atEnd : α → Bool

namespace Machine

variable {α β : Type} (m : Machine α)

def move (s : Copied α) : Move → Cursor.Answer × Copied α
  | .call c => ((m.perform s.now c).1, { s with now := (m.perform s.now c).2 })
  | .copy => (.nothing, { s with copies := s.copies ++ [s.now] })
  | .back k => (.nothing, { s with now := s.copies[k]?.getD s.now })

def after (s : Copied α) (moves : List Move) : Copied α :=
  moves.foldl (fun s move => (m.move s move).2) s

def run (s : Copied α) : List Move → List Seen
  | [] => []
  | move :: moves =>
      let (answer, s) := m.move s move
      ⟨answer, m.index s.now, m.atEnd s.now⟩ :: run s moves

variable {m}

/-- What one machine does is what the other does, seen through `f`. -/
structure Maps (m : Machine α) (n : Machine β) (f : α → β) : Prop where
  perform : ∀ a c, n.perform (f a) c = ((m.perform a c).1, f (m.perform a c).2)
  index : ∀ a, n.index (f a) = m.index a
  atEnd : ∀ a, n.atEnd (f a) = m.atEnd a

namespace Maps

variable {n : Machine β} {f : α → β}

theorem move (maps : m.Maps n f) (s : Copied α) (move : Move) :
    n.move (s.map f) move = ((m.move s move).1, (m.move s move).2.map f) := by
  cases move with
  | call c => simp only [Machine.move, Copied.map, maps.perform]
  | copy => simp only [Machine.move, Copied.map, List.map_append, List.map_singleton]
  | back k =>
      simp only [Machine.move, Copied.map, List.getElem?_map]
      cases s.copies[k]? <;> rfl

/-- Programs see the same. -/
theorem run_eq (maps : m.Maps n f) (s : Copied α) (moves : List Move) :
    n.run (s.map f) moves = m.run s moves := by
  induction moves generalizing s with
  | nil => rfl
  | cons move moves ih =>
      have here (t : Copied α) : (t.map f).now = f t.now := rfl
      simp only [run, maps.move, here, maps.index, maps.atEnd, ih]

end Maps

/-! ### What a program keeps -/

variable {P : α → Prop} {s : Copied α}

theorem all_move (keeps : ∀ a c, P a → P (m.perform a c).2) (all : s.All P) (move : Move) :
    (m.move s move).2.All P := by
  cases move with
  | call c => exact ⟨keeps _ c all.now, all.copies⟩
  | copy =>
      refine ⟨all.now, List.forall_mem_append.mpr ⟨all.copies, ?_⟩⟩
      simpa using all.now
  | back k =>
      refine ⟨?_, all.copies⟩
      show P (s.copies[k]?.getD s.now)
      cases kept : s.copies[k]? with
      | none => exact all.now
      | some a => exact all.copies a (List.mem_of_getElem? kept)

theorem all_after (keeps : ∀ a c, P a → P (m.perform a c).2) (all : s.All P)
    (moves : List Move) : (m.after s moves).All P := by
  induction moves generalizing s with
  | nil => exact all
  | cons move moves ih => exact ih (all_move keeps all move)

/-- What is seen is seen of a state that the property holds of. -/
theorem exists_of_mem_run (keeps : ∀ a c, P a → P (m.perform a c).2) (all : s.All P)
    {moves : List Move} {seen : Seen} (made : seen ∈ m.run s moves) :
    ∃ a, P a ∧ seen.index = m.index a ∧ seen.atEnd = m.atEnd a := by
  induction moves generalizing s with
  | nil => exact absurd made List.not_mem_nil
  | cons move moves ih =>
      have next := all_move keeps all move
      rcases List.mem_cons.mp made with rfl | later
      · exact ⟨_, next.now, rfl, rfl⟩
      · exact ih next later

end Machine

/-! ## Cursors and pointers -/

def Pointer.machine : Machine Pointer.Marked :=
  ⟨perform, fun m => m.pointer.index, fun m => m.pointer.atEnd⟩

namespace Cursor

def machine : Machine Bookmarked :=
  ⟨perform, fun b => b.cursor.index, fun b => b.cursor.atEnd⟩

theorem maps_marked : machine.Maps Pointer.machine Bookmarked.marked :=
  ⟨Bookmarked.perform_marked, fun _ => rfl, fun b => b.cursor.atEnd_pointer⟩

variable {source : Source} {b : Bookmarked}

/-- The cursor and its copy are in the source. -/
structure Bookmarked.Of (source : Source) (b : Bookmarked) : Prop where
  cursor : b.cursor.source = source
  saved : b.saved.source = source

theorem Bookmarked.Of.perform (of : b.Of source) (call : Call) :
    (Cursor.perform b call).2.Of source := by
  have same : b.saved.source = b.cursor.source := of.saved.trans of.cursor.symm
  refine ⟨(source_perform b same call).trans of.cursor, ?_⟩
  cases call with
  | save => exact of.cursor
  | _ => exact of.saved

theorem le_index_move (s : Copied Bookmarked) {move : Move} (forward : move.Forward) :
    machine.index s.now ≤ machine.index (machine.move s move).2.now := by
  cases move with
  | call c => exact le_index_perform s.now forward
  | copy => exact Nat.le_refl _
  | back k => exact forward.elim

/-- All cursors of a program that starts in the source. -/
def reached (source : Source) (moves : List Move) : Copied Bookmarked :=
  machine.after (.start (.ofSource source)) moves

theorem reached_snoc (source : Source) (moves : List Move) (move : Move) :
    reached source (moves ++ [move]) = (machine.move (reached source moves) move).2 := by
  simp [reached, Machine.after]

theorem of_start (source : Source) :
    (Copied.start (Bookmarked.ofSource source)).All (·.Of source) :=
  ⟨⟨rfl, rfl⟩, by simp [Copied.start]⟩

theorem of_reached (source : Source) (moves : List Move) :
    (reached source moves).now.Of source :=
  (Machine.all_after (fun _ c of => of.perform c) (of_start source) moves).now

/-- A search that ends at a line feed or a delimiter moves as a run of other bytes does, and
tells the byte on which it stops, or nothing exactly at the end. -/
structure Searches (b : Bookmarked) (text : List UInt8) : Prop where
  line : perform b .skipLine = perform b (.skipWhile (· != Byte.lineFeed))
  moves : ∀ delimiter, (perform b (.seek delimiter)).2 =
    (perform b (.skipWhile fun x => x != delimiter && x != Byte.lineFeed)).2
  stops : ∀ delimiter, (perform b (.seek delimiter)).1 =
    .found text[(perform b (.seek delimiter)).2.cursor.index]?
  ends : ∀ delimiter, (perform b (.seek delimiter)).1 = .found none ↔
    (perform b (.seek delimiter)).2.cursor.atEnd = true

theorem Bookmarked.Of.searches (of : b.Of source) : Searches b source.bytes where
  line := by simp only [Cursor.perform, skipLine_eq]
  moves delimiter := by
    have stop := b.cursor.seek_snd delimiter
    simp only [Cursor.perform, stop]
  stops delimiter := by
    have found := b.cursor.seek_fst_eq delimiter
    rw [of.cursor] at found
    simp only [Cursor.perform, found]
  ends delimiter := by
    have found := b.cursor.seek_fst delimiter
    simp only [Cursor.perform, atEnd_iff, found, Answer.found.injEq, List.head?_eq_none_iff]

/-- What programs see of a cursor at the start of a source is read off a text and an index. -/
structure IsIndex (source : Source) (text : List UInt8) (moves : List Move) : Prop where
  bytes_eq : source.bytes = text
  length_eq : source.length = text.length
  run_eq : machine.run (.start (.ofSource source)) moves =
    Pointer.machine.run (.start (.ofText text)) moves
  index_le : ∀ seen ∈ machine.run (.start (.ofSource source)) moves, seen.index ≤ text.length
  atEnd_iff : ∀ seen ∈ machine.run (.start (.ofSource source)) moves,
    (seen.atEnd = true ↔ seen.index = text.length)
  /-- Only a return to a copy moves back. -/
  forward : ∀ front move back, moves = front ++ move :: back → move.Forward →
    (reached source front).now.cursor.index ≤
      (reached source (front ++ [move])).now.cursor.index
  searches : Searches (reached source moves).now text
  /-- A sum that is cut off at 32 bits is cut off at the end all the same. -/
  saturated : ∀ n, ((reached source moves).now.cursor.advanceBy n).index =
    min (min ((reached source moves).now.cursor.index + n) Source.maxLength) text.length

/-- **A cursor is an index into its text**: whatever a program does with a cursor over a text
that is not too long, and with copies of it, all answers and places are those of a pointer,
which has no zeros behind its text. -/
theorem isIndex (name : String) (text : List UInt8) (moves : List Move)
    (fits : text.length ≤ Source.maxLength) :
    ∃ source, Source.ofBytes name text = .ok source ∧ IsIndex source text moves := by
  obtain ⟨source, made, bytes⟩ :
      ∃ source, Source.ofBytes name text = .ok source ∧ source.bytes = text :=
    ⟨.padded name text fits, dif_pos fits, Source.bytes_padded name text fits⟩
  have length : source.length = text.length := by rw [← bytes, Source.length_bytes]
  have of := of_reached source moves
  refine ⟨source, made, ?_⟩
  constructor
  case bytes_eq => exact bytes
  case length_eq => exact length
  case run_eq =>
    rw [← bytes]
    exact (maps_marked.run_eq (.start (.ofSource source)) moves).symm
  case index_le =>
    intro seen made
    obtain ⟨b, of, index, _⟩ :=
      Machine.exists_of_mem_run (fun _ c of => of.perform c) (of_start source) made
    rw [index, ← length, ← of.cursor]
    exact b.cursor.index_le
  case atEnd_iff =>
    intro seen made
    obtain ⟨b, of, index, atEnd⟩ :=
      Machine.exists_of_mem_run (fun _ c of => of.perform c) (of_start source) made
    rw [index, atEnd, ← length, ← of.cursor]
    exact b.cursor.atEnd_iff_index
  case forward =>
    intro front move back _ forward
    rw [reached_snoc]
    exact le_index_move _ forward
  case searches =>
    rw [← bytes]
    exact of.searches
  case saturated =>
    intro n
    have small := source.length_le_max
    simp only [advanceBy, of.cursor, length] at small ⊢
    omega

/-- A zero inside the text, a look and a leap past its end, and a return to a copy. -/
theorem isIndex_zero :
    let text : List UInt8 := [0x61, 0x00, 0x0A, 0x62]
    let moves : List Move := [.call .advance, .copy, .call (.peek 7), .call (.seek 0x62),
      .call (.advanceBy 4294967295), .call (.skipWhile fun _ => true), .back 0, .call .current,
      .call (.slice 3 99)]
    text.length ≤ Source.maxLength ∧
      ∃ source, Source.ofBytes "zero" text = .ok source ∧ IsIndex source text moves ∧
        machine.run (.start (.ofSource source)) moves =
          [⟨.nothing, 1, false⟩, ⟨.nothing, 1, false⟩, ⟨.byte 0, 1, false⟩,
            ⟨.found (some 0x0A), 2, false⟩, ⟨.nothing, 4, true⟩, ⟨.count 0, 4, true⟩,
            ⟨.nothing, 1, false⟩, ⟨.byte 0, 1, false⟩, ⟨.bytes [0x62], 1, false⟩] := by
  intro text moves
  have fits : text.length ≤ Source.maxLength := by decide
  obtain ⟨source, made, is⟩ := isIndex "zero" text moves fits
  refine ⟨fits, source, made, is, ?_⟩
  rw [is.run_eq]
  decide +kernel

end Cursor

end Lexis
