/-
# Lexis.Proofs.Passage -- the bytes between two places of a source

`c.Passes passed d` says that a cursor went from `c` to `d` in one source and
that `passed` is what lies between.  Passages compose (`Passes.trans`), and the
bytes passed are known from both ends: what was ahead is `passed` and what is
still ahead, what was behind has grown by `passed` (`take_index_eq`), and the
slice back to the first place is `passed` (`sliceFrom_eq_passed`).  Every move
of a cursor is a passage.

A head passes bytes when its cursor does and its position steps over each of
them.  A head in step knows its own offset; then a run without a line feed may be
passed at once (`passes_moveTo`).
-/
import Lexis.Head

namespace Lexis

set_option autoImplicit false

/-! ## Cursors -/

structure Cursor.Passes (c : Cursor) (passed : List UInt8) (d : Cursor) : Prop where
  source_eq : d.source = c.source
  rest_eq : c.rest = passed ++ d.rest

namespace Cursor

theorem eq_of_index {c d : Cursor} (source : c.source = d.source) (index : c.index = d.index) :
    c = d := by
  cases c
  cases d
  cases source
  cases index
  rfl

namespace Passes

variable {c d e : Cursor} {passed front back : List UInt8}

theorem refl (c : Cursor) : c.Passes [] c := ⟨rfl, rfl⟩

theorem trans (first : c.Passes front d) (second : d.Passes back e) :
    c.Passes (front ++ back) e := by
  refine ⟨second.source_eq.trans first.source_eq, ?_⟩
  rw [first.rest_eq, second.rest_eq, List.append_assoc]

theorem index_eq (p : c.Passes passed d) : d.index = c.index + passed.length := by
  have lengths := congrArg List.length p.rest_eq
  have hc := c.index_le
  have hd := d.index_le
  rw [List.length_append, length_rest, length_rest] at lengths
  unfold remaining at lengths
  rw [p.source_eq] at lengths hd
  omega

/-- What is behind a cursor grows by what it passes. -/
theorem take_index_eq (p : c.Passes passed d) :
    d.source.bytes.take d.index = c.source.bytes.take c.index ++ passed := by
  apply List.append_cancel_right
  show d.source.bytes.take d.index ++ d.rest = c.source.bytes.take c.index ++ passed ++ d.rest
  rw [List.append_assoc, ← p.rest_eq, rest, rest, List.take_append_drop, List.take_append_drop,
    p.source_eq]

theorem sliceFrom_eq_passed (p : c.Passes passed d) : d.sliceFrom c.index = passed := by
  rw [sliceFrom_eq d (by rw [p.index_eq]; exact Nat.le_add_right _ _), p.take_index_eq]
  exact List.drop_left' (by rw [List.length_take, Source.length_bytes, Nat.min_eq_left c.index_le])

end Passes

theorem passes_advance {c : Cursor} {b : UInt8} {tail : List UInt8} (ahead : c.rest = b :: tail) :
    c.Passes [b] c.advance := by
  refine ⟨c.source_advance, ?_⟩
  rw [rest_advance, ahead]
  rfl

theorem passes_advanceBy (c : Cursor) (n : Nat) : c.Passes (c.rest.take n) (c.advanceBy n) := by
  refine ⟨c.source_advanceBy n, ?_⟩
  rw [rest_advanceBy, List.take_append_drop]

theorem passes_skipWhile (c : Cursor) (inClass : UInt8 → Bool) :
    c.Passes (c.rest.takeWhile inClass) (c.skipWhile inClass) := by
  refine ⟨c.source_skipWhile inClass, ?_⟩
  rw [rest_skipWhile, List.takeWhile_append_dropWhile]

theorem passes_skipTo (c : Cursor) (inClass : UInt8 → Bool) :
    c.Passes (c.rest.takeWhile fun b => !inClass b) (c.skipTo inClass) := by
  refine ⟨c.source_skipTo inClass, ?_⟩
  rw [rest_skipTo, List.takeWhile_append_dropWhile]

theorem passes_seek (c : Cursor) (delimiter : UInt8) :
    c.Passes (c.rest.takeWhile fun b => !(b == delimiter || b == Byte.lineFeed))
      (c.seek delimiter).2 :=
  c.passes_skipTo _

theorem current_of_rest {c : Cursor} {b : UInt8} {tail : List UInt8} (ahead : c.rest = b :: tail) :
    c.current = b := by
  rw [current_eq, ahead]
  rfl

theorem rest_advance_of_rest {c : Cursor} {b : UInt8} {tail : List UInt8}
    (ahead : c.rest = b :: tail) : c.advance.rest = tail := by
  rw [rest_advance, ahead]
  rfl

theorem atEnd_eq_false {c : Cursor} {b : UInt8} {tail : List UInt8} (ahead : c.rest = b :: tail) :
    c.atEnd = false := by
  rw [← Bool.not_eq_true, atEnd_iff, ahead]
  exact List.cons_ne_nil b tail

/-- A byte other than zero stands at the front of what is ahead. -/
theorem rest_eq_cons {c : Cursor} {b : UInt8} (here : c.current = b) (nonzero : b ≠ 0) :
    ∃ tail, c.rest = b :: tail := by
  rw [current_eq] at here
  cases ahead : c.rest with
  | nil =>
      rw [ahead] at here
      exact absurd here.symm nonzero
  | cons first tail =>
      rw [ahead] at here
      exact ⟨tail, congrArg (· :: tail) here⟩

end Cursor

/-! ## Heads -/

@[simp] theorem Position.offset_stepOverAll_start (bytes : List UInt8) :
    (Position.start.stepOverAll bytes).offset = bytes.length := by
  rw [offset_stepOverAll, start, Nat.zero_add]

/-- The position of a head is that of its cursor. -/
def Head.InStep (h : Head) : Prop :=
  h.position.offset = h.cursor.index

structure Head.Passes (h : Head) (passed : List UInt8) (k : Head) : Prop where
  cursor : h.cursor.Passes passed k.cursor
  position : k.position = h.position.stepOverAll passed

namespace Head

theorem inStep_ofSource (source : Source) : (ofSource source).InStep := rfl

namespace Passes

variable {h k l : Head} {passed front back : List UInt8}

theorem refl (h : Head) : h.Passes [] h := ⟨.refl _, rfl⟩

theorem trans (first : h.Passes front k) (second : k.Passes back l) :
    h.Passes (front ++ back) l := by
  refine ⟨first.cursor.trans second.cursor, ?_⟩
  rw [second.position, first.position, Position.stepOverAll_append]

theorem inStep (p : h.Passes passed k) (step : h.InStep) : k.InStep := by
  show k.position.offset = k.cursor.index
  rw [p.position, p.cursor.index_eq, Position.offset_stepOverAll, step]

end Passes

/-- Over bytes of one line the position follows the cursor in one step. -/
theorem passes_moveTo {h : Head} {passed : List UInt8} {d : Cursor} (step : h.InStep)
    (p : h.cursor.Passes passed d) (oneLine : Byte.lineFeed ∉ passed) :
    h.Passes passed (h.moveTo d) := by
  refine ⟨p, ?_⟩
  rw [Position.stepOverAll_of_no_lineFeed _ _ oneLine, moveTo, p.index_eq, step]

theorem passes_feedLine {h : Head} (feed : h.cursor.current = Byte.lineFeed) :
    h.Passes [Byte.lineFeed] h.feedLine := by
  obtain ⟨tail, ahead⟩ := Cursor.rest_eq_cons feed (by decide)
  exact ⟨Cursor.passes_advance ahead, rfl⟩

end Head

end Lexis
