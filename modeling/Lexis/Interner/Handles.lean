/-
# Lexis.Interner.Handles -- several names for one interner

A handle names an interner.  A duplicated handle names the same interner as the
one it was made from; a handle that is given an interner of its own shares it
with nobody.  What is done through a handle changes its interner and no other
(`at?_put_of_ne`), and every handle of that interner sees it
(`at?_put_of_eq`).
-/
import Lexis.Interner

namespace Lexis

set_option autoImplicit false

/-- A place among the handles. -/
structure Handle where
  place : Nat
deriving DecidableEq

/-- The interners, and for every handle the one that it names. -/
structure Handles where
  interners : Array Interner
  owners : Array Nat

namespace Handles

def empty : Handles := ⟨#[], #[]⟩

def size (hs : Handles) : Nat := hs.owners.size

/-- The place of the interner that a handle names. -/
def owner? (hs : Handles) (h : Handle) : Option Nat :=
  hs.owners[h.place]?

/-- The interner that a handle names. -/
def at? (hs : Handles) (h : Handle) : Option Interner :=
  (hs.owner? h).bind (hs.interners[·]?)

/-- A new handle to an interner of its own. -/
def give (hs : Handles) (n : Interner) : Handle × Handles :=
  (⟨hs.owners.size⟩, ⟨hs.interners.push n, hs.owners.push hs.interners.size⟩)

/-- A new handle to the interner that an old one names. -/
def duplicate (hs : Handles) (h : Handle) : Option (Handle × Handles) :=
  (hs.owner? h).map fun owner => (⟨hs.owners.size⟩, { hs with owners := hs.owners.push owner })

/-- Puts another state of the interner where a handle finds it. -/
def put (hs : Handles) (h : Handle) (n : Interner) : Handles :=
  match hs.owner? h with
  | some owner => { hs with interners := hs.interners.setIfInBounds owner n }
  | none => hs

/-! ## Laws -/

@[simp] theorem owner?_put (hs : Handles) (h g : Handle) (n : Interner) :
    (hs.put h n).owner? g = hs.owner? g := by
  unfold put
  split <;> rfl

/-- A handle of another interner sees no change. -/
theorem at?_put_of_ne {hs : Handles} {h g : Handle} (n : Interner)
    (apart : hs.owner? g ≠ hs.owner? h) : (hs.put h n).at? g = hs.at? g := by
  unfold at?
  rw [owner?_put]
  unfold put
  split
  · rename_i owner held
    cases named : hs.owner? g with
    | none => rfl
    | some other =>
        have ne : owner ≠ other := fun same => apart (by rw [named, held, same])
        simp [Array.getElem?_setIfInBounds, ne]
  · rfl

/-- Every handle of the interner sees its new state. -/
theorem at?_put_of_eq {hs : Handles} {h g : Handle} {old : Interner} (n : Interner)
    (shared : hs.owner? g = hs.owner? h) (present : hs.at? h = some old) :
    (hs.put h n).at? g = some n := by
  unfold at? at *
  rw [owner?_put, shared]
  cases named : hs.owner? h with
  | none => simp [named] at present
  | some owner =>
      rw [named] at present
      have inside : owner < hs.interners.size := by
        simp only [Option.bind_some] at present
        exact (Array.getElem?_eq_some_iff.mp present).1
      simp [put, named, Array.getElem?_setIfInBounds, inside]

end Handles

end Lexis
