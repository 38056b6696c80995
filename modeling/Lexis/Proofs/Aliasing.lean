/-
# Lexis.Proofs.Aliasing -- handles share an interner when one was duplicated from the other

Handles are given interners, duplicated and used in any order.  A trace keeps the handles
and a log of what was done and seen (`Trace.step`).  The log alone says which handles are
connected by duplicating (`Connected`), and those are the ones that name one interner.

`Sound` is what every step keeps.  Each handle is connected to one that was given an
interner, and two of those never share; and the interner that such a handle names is the
given one after the uses through handles that name it too, and no others.  So what is
seen through any handle is what is seen by one who has an interner alone and makes only
these uses (`trace_faithful`).
-/
import Lexis.Interner.Call
import Mathlib.Data.List.Basic
import Mathlib.Logic.Relation

namespace Lexis

set_option autoImplicit false

/-! ## Uses of an interner -/

namespace Interner

/-- A call, or a look at the size and at whether the index is held. -/
inductive Use where
  | call (c : Call)
  | look

/-- What a use shows. -/
inductive Observation where
  | answer (a : Answer)
  | state (size : Nat) (indexed : Bool)

def use (n : Interner) : Use → Observation × Interner
  | .call c => (.answer (n.perform c).1, (n.perform c).2)
  | .look => (.state n.size n.indexed, n)

/-- The interner that uses leave. -/
def afterUses (n : Interner) (us : List Use) : Interner :=
  us.foldl (fun n u => (n.use u).2) n

/-- What uses show, one after another. -/
def observations (n : Interner) : List Use → List Observation
  | [] => []
  | u :: us => (n.use u).1 :: (n.use u).2.observations us

theorem afterUses_snoc (n : Interner) (us : List Use) (u : Use) :
    n.afterUses (us ++ [u]) = ((n.afterUses us).use u).2 := by
  simp [afterUses]

theorem observations_snoc (n : Interner) (us : List Use) (u : Use) :
    n.observations (us ++ [u]) = n.observations us ++ [((n.afterUses us).use u).1] := by
  induction us generalizing n with
  | nil => rfl
  | cons v us ih => rw [List.cons_append, observations, ih, observations, List.cons_append]; rfl

end Interner

namespace Handles

open Interner (Use Observation)

variable {hs : Handles} {h g : Handle} {n m : Interner}

/-- A use through a handle. -/
def use (hs : Handles) (h : Handle) : Use → Option Observation × Handles
  | .call c => ((hs.perform h c).1.map .answer, (hs.perform h c).2)
  | .look => ((hs.at? h).map fun n => .state n.size n.indexed, hs)

/-! ## What each operation does to the handles -/

/-- One handle more; the others name what they named. -/
structure Adds (hs after : Handles) : Prop where
  size : after.size = hs.size + 1
  owner? : ∀ g, g.place < hs.size → after.owner? g = hs.owner? g
  at? : ∀ g m, hs.at? g = some m → after.at? g = some m

/-- The interner that `h` names is another now, and no other is. -/
structure Changes (hs : Handles) (h : Handle) (n : Interner) (after : Handles) : Prop where
  size : after.size = hs.size
  owner? : ∀ g, after.owner? g = hs.owner? g
  shared : ∀ g, hs.owner? g = hs.owner? h → after.at? g = some n
  apart : ∀ g, hs.owner? g ≠ hs.owner? h → after.at? g = hs.at? g

theorem at?_eq_none (absent : hs.size ≤ h.place) : hs.at? h = none := by
  unfold at? owner?
  rw [Array.getElem?_eq_none absent]
  rfl

theorem at?_eq_of_owner?_eq (shared : hs.owner? h = hs.owner? g) : hs.at? h = hs.at? g := by
  unfold at?
  rw [shared]

theorem place_lt_size (found : hs.at? h = some n) : h.place < hs.size := by
  refine Nat.lt_of_not_le fun absent => ?_
  rw [at?_eq_none absent] at found
  cases found

theorem adds_give (hs : Handles) (n : Interner) : hs.Adds (hs.give n).2 where
  size := Array.size_push _
  owner? g present :=
    (Array.getElem?_push_lt present).trans (Array.getElem?_eq_getElem present).symm
  at? g m found := by
    obtain ⟨owner, named, held⟩ := Option.bind_eq_some_iff.mp found
    have inside := (Array.getElem?_eq_some_iff.mp named).1
    have inside' := (Array.getElem?_eq_some_iff.mp held).1
    refine Option.bind_eq_some_iff.mpr ⟨owner, ?_, ?_⟩
    · rw [← named]
      simp [Handles.owner?, give, Array.getElem?_push, Nat.ne_of_lt inside]
    · rw [← held]
      simp [give, Array.getElem?_push, Nat.ne_of_lt inside']

/-- A handle to an interner of its own finds it. -/
theorem at?_give (hs : Handles) (n : Interner) : (hs.give n).2.at? (hs.give n).1 = some n := by
  simp [at?, owner?, give]

theorem owner?_give (hs : Handles) (n : Interner) :
    (hs.give n).2.owner? (hs.give n).1 = some hs.interners.size := by
  simp [owner?, give]

theorem adds_duplicate (found : hs.at? h = some n) :
    ∃ after, hs.duplicate h = some (⟨hs.size⟩, after) ∧ hs.Adds after ∧
      after.owner? ⟨hs.size⟩ = hs.owner? h := by
  obtain ⟨owner, named, _⟩ := Option.bind_eq_some_iff.mp found
  let after : Handles := { hs with owners := hs.owners.push owner }
  have owners : ∀ g, g.place < hs.size → after.owner? g = hs.owner? g := by
    intro g present
    have notLast : g.place ≠ hs.owners.size := Nat.ne_of_lt present
    simp [after, owner?, Array.getElem?_push, notLast]
  refine ⟨after, by simp [duplicate, named, size, after], ⟨Array.size_push _, owners, ?_⟩, ?_⟩
  · intro g m held
    rw [← held]
    unfold at?
    rw [owners g (place_lt_size held)]
  · simp [after, owner?, size, ← named]

theorem changes_put (found : hs.at? h = some m) (n : Interner) : hs.Changes h n (hs.put h n) where
  size := by
    unfold put
    split <;> rfl
  owner? g := owner?_put hs h g n
  shared _ shared := at?_put_of_eq n shared found
  apart _ apart := at?_put_of_ne n apart

/-- A use through a handle is one of the interner that it names. -/
theorem use_eq (found : hs.at? h = some n) (u : Use) :
    ∃ after, hs.use h u = (some (n.use u).1, after) ∧ hs.Changes h (n.use u).2 after := by
  cases u with
  | call c =>
      refine ⟨hs.put h (n.perform c).2, ?_, changes_put found _⟩
      simp only [use, perform, found, Option.map_some]
      rfl
  | look =>
      refine ⟨hs, ?_, rfl, fun _ => rfl, ?_, fun _ _ => rfl⟩
      · simp only [use, found, Option.map_some]
        rfl
      · exact fun g shared => (at?_eq_of_owner?_eq shared).trans found

theorem use_eq_none (absent : hs.at? h = none) (u : Use) : hs.use h u = (none, hs) := by
  cases u with
  | call c => simp only [use, perform, absent, Option.map_none]
  | look => simp only [use, absent, Option.map_none]

/-! ## What was done and seen -/

inductive Event where
  | given (n : Interner) (made : Handle)
  | copied (old made : Handle)
  | used (h : Handle) (u : Use) (seen : Observation)

/-- A use through one of the handles, with what it showed. -/
def Event.through (among : Handle → Bool) : Event → Option (Use × Observation)
  | .used h u seen => if among h then some (u, seen) else none
  | _ => none

/-- The handles are copies of one another, at any remove. -/
def Connected (log : List Event) : Handle → Handle → Prop :=
  Relation.EqvGen fun old made => Event.copied old made ∈ log

/-- Handles, and what was done with them so far, in order. -/
structure Trace where
  handles : Handles
  log : List Event

inductive Step where
  /-- A handle to an interner of its own: an empty one, or one that was filled before. -/
  | give (n : Interner)
  | duplicate (h : Handle)
  | use (h : Handle) (u : Use)

/-- A step; with a handle that there is not, nothing is done. -/
def Trace.step (t : Trace) : Step → Trace
  | .give n => ⟨(t.handles.give n).2, t.log ++ [.given n (t.handles.give n).1]⟩
  | .duplicate h =>
      match t.handles.duplicate h with
      | some (made, after) => ⟨after, t.log ++ [.copied h made]⟩
      | none => t
  | .use h u =>
      match t.handles.use h u with
      | (some seen, after) => ⟨after, t.log ++ [.used h u seen]⟩
      | (none, _) => t

def trace (steps : List Step) : Trace :=
  steps.foldl Trace.step ⟨empty, []⟩

/-- The uses through all handles that name the same interner, in their order. -/
def Trace.uses (t : Trace) (h : Handle) : List (Use × Observation) :=
  t.log.filterMap (Event.through fun g => t.handles.owner? g = t.handles.owner? h)

theorem Connected.snoc {log : List Event} (connected : Connected log h g) (e : Event) :
    Connected (log ++ [e]) h g := by
  have more : (fun old made => Event.copied old made ∈ log) ≤
      fun old made => Event.copied old made ∈ log ++ [e] :=
    fun _ _ member => List.mem_append_left _ member
  exact Relation.EqvGen.mono more _ _ connected

/-! ## What every step keeps -/

namespace Trace

variable {t : Trace} {after : Handles} {e : Event} {root : Handle}

theorem step_duplicate (found : t.handles.at? h = some n) :
    ∃ after, t.step (.duplicate h) = ⟨after, t.log ++ [.copied h ⟨t.handles.size⟩]⟩ ∧
      t.handles.Adds after ∧ after.owner? ⟨t.handles.size⟩ = t.handles.owner? h := by
  obtain ⟨after, copied, adds, shared⟩ := adds_duplicate found
  exact ⟨after, by simp only [step, copied], adds, shared⟩

theorem step_duplicate_absent (absent : t.handles.size ≤ h.place) :
    t.step (.duplicate h) = t := by
  have nothing : t.handles.duplicate h = none := by
    unfold Handles.duplicate owner?
    rw [Array.getElem?_eq_none absent]
    rfl
  simp only [step, nothing]

theorem step_use (found : t.handles.at? h = some m) (u : Use) :
    ∃ after, t.step (.use h u) = ⟨after, t.log ++ [.used h u (m.use u).1]⟩ ∧
      t.handles.Changes h (m.use u).2 after := by
  obtain ⟨after, used, changes⟩ := use_eq found u
  exact ⟨after, by simp only [step, used], changes⟩

theorem step_use_absent (absent : t.handles.at? h = none) (u : Use) : t.step (.use h u) = t := by
  simp only [step, use_eq_none absent]

/-- The handle names the interner `n` after the uses that the log tells of, and they showed
what they show to one who makes them on `n` alone. -/
structure Tells (t : Trace) (n : Interner) (h : Handle) : Prop where
  at?_eq : t.handles.at? h = some (n.afterUses ((t.uses h).map Prod.fst))
  seen_eq : (t.uses h).map Prod.snd = n.observations ((t.uses h).map Prod.fst)

structure Sound (t : Trace) : Prop where
  used : ∀ h u seen, .used h u seen ∈ t.log → h.place < t.handles.size
  copied : ∀ old made, .copied old made ∈ t.log → old.place < t.handles.size ∧
    made.place < t.handles.size ∧ t.handles.owner? old = t.handles.owner? made
  rooted : ∀ h, h.place < t.handles.size → ∃ n root, .given n root ∈ t.log ∧ Connected t.log root h
  tells : ∀ n root, .given n root ∈ t.log → t.Tells n root
  alone : ∀ n root m other, .given n root ∈ t.log → .given m other ∈ t.log →
    t.handles.owner? root = t.handles.owner? other → root = other

theorem sound_start : Sound ⟨empty, []⟩ where
  used _ _ _ member := absurd member List.not_mem_nil
  copied _ _ member := absurd member List.not_mem_nil
  rooted _ present := absurd present (Nat.not_lt_zero _)
  tells _ _ member := absurd member List.not_mem_nil
  alone _ _ _ _ member := absurd member List.not_mem_nil

namespace Sound

/-! ### Who shares with whom -/

theorem place_lt_of_given (sound : t.Sound) (given : .given n root ∈ t.log) :
    root.place < t.handles.size :=
  place_lt_size (sound.tells n root given).at?_eq

/-- Handles that are connected name one interner. -/
theorem owner?_eq_of_connected (sound : t.Sound) (connected : Connected t.log h g) :
    t.handles.owner? h = t.handles.owner? g := by
  induction connected with
  | rel old made copied => exact (sound.copied old made copied).2.2
  | refl => rfl
  | symm _ _ _ ih => exact ih.symm
  | trans _ _ _ _ _ ih ih' => exact ih.trans ih'

theorem owner?_eq_iff (sound : t.Sound) (present : h.place < t.handles.size)
    (present' : g.place < t.handles.size) :
    t.handles.owner? h = t.handles.owner? g ↔ Connected t.log h g := by
  constructor
  · intro same
    obtain ⟨n, root, given, connected⟩ := sound.rooted h present
    obtain ⟨m, other, given', connected'⟩ := sound.rooted g present'
    have shared : t.handles.owner? root = t.handles.owner? other := by
      rw [sound.owner?_eq_of_connected connected, same, sound.owner?_eq_of_connected connected']
    obtain rfl := sound.alone n root m other given given' shared
    exact .trans _ _ _ (.symm _ _ connected) connected'
  · exact sound.owner?_eq_of_connected

theorem tells_of_owner?_eq (tells : t.Tells n h)
    (shared : t.handles.owner? h = t.handles.owner? g) : t.Tells n g := by
  have same : t.uses g = t.uses h := by
    unfold uses
    rw [shared]
  refine ⟨?_, ?_⟩
  · rw [← at?_eq_of_owner?_eq shared, same]
    exact tells.at?_eq
  · rw [same]
    exact tells.seen_eq

/-! ### One handle more -/

/-- Where a handle is added, the uses through the others are the same. -/
theorem uses_adds (sound : t.Sound) (adds : t.handles.Adds after)
    (silent : ∀ among, e.through among = none) (present : h.place < t.handles.size) :
    uses ⟨after, t.log ++ [e]⟩ h = t.uses h := by
  have nothing (among : Handle → Bool) : [e].filterMap (Event.through among) = [] := by
    simp [silent]
  unfold uses
  rw [List.filterMap_append, nothing, List.append_nil]
  refine List.filterMap_congr fun other member => ?_
  cases other with
  | used g u seen =>
      simp only [Event.through, adds.owner? g (sound.used g u seen member), adds.owner? h present]
  | given | copied => rfl

theorem tells_adds (sound : t.Sound) (adds : t.handles.Adds after)
    (silent : ∀ among, e.through among = none) (given : .given n root ∈ t.log) :
    Tells ⟨after, t.log ++ [e]⟩ n root := by
  have same := sound.uses_adds adds silent (sound.place_lt_of_given given)
  have tells := sound.tells n root given
  exact ⟨same ▸ adds.at? _ _ tells.at?_eq, same ▸ tells.seen_eq⟩

theorem used_adds (sound : t.Sound) (adds : t.handles.Adds after)
    (silent : ∀ among, e.through among = none) (h : Handle) (u : Use) (seen : Observation)
    (member : .used h u seen ∈ t.log ++ [e]) : h.place < after.size := by
  rcases List.mem_append.mp member with old | new
  · exact adds.size ▸ Nat.lt_succ_of_lt (sound.used h u seen old)
  · obtain rfl := List.mem_singleton.mp new
    cases silent fun _ => true

theorem copied_adds (sound : t.Sound) (adds : t.handles.Adds after) {old made : Handle}
    (earlier : .copied old made ∈ t.log) :
    old.place < after.size ∧ made.place < after.size ∧ after.owner? old = after.owner? made := by
  obtain ⟨first, second, same⟩ := sound.copied old made earlier
  refine ⟨adds.size ▸ Nat.lt_succ_of_lt first, adds.size ▸ Nat.lt_succ_of_lt second, ?_⟩
  exact (adds.owner? old first).trans (same.trans (adds.owner? made second).symm)

theorem rooted_snoc (sound : t.Sound) (present : h.place < t.handles.size) :
    ∃ n root, .given n root ∈ t.log ++ [e] ∧ Connected (t.log ++ [e]) root h := by
  obtain ⟨n, root, given, connected⟩ := sound.rooted h present
  exact ⟨n, root, List.mem_append_left _ given, connected.snoc e⟩

theorem alone_adds (sound : t.Sound) (adds : t.handles.Adds after) {other : Handle}
    (given : .given n root ∈ t.log) (given' : .given m other ∈ t.log)
    (same : after.owner? root = after.owner? other) : root = other := by
  rw [adds.owner? root (sound.place_lt_of_given given),
    adds.owner? other (sound.place_lt_of_given given')] at same
  exact sound.alone n root m other given given' same

/-- What a handle names is there. -/
theorem exists_tells (sound : t.Sound) (present : h.place < t.handles.size) :
    ∃ n root, .given n root ∈ t.log ∧ Connected t.log root h ∧ t.Tells n h := by
  obtain ⟨n, root, given, connected⟩ := sound.rooted h present
  exact ⟨n, root, given, connected,
    tells_of_owner?_eq (sound.tells n root given) (sound.owner?_eq_of_connected connected)⟩

theorem owner?_lt (found : t.handles.at? h = some n) :
    ∃ owner < t.handles.interners.size, t.handles.owner? h = some owner := by
  obtain ⟨owner, named, held⟩ := Option.bind_eq_some_iff.mp found
  exact ⟨owner, (Array.getElem?_eq_some_iff.mp held).1, named⟩

/-- An old handle does not name the interner of a new one. -/
theorem owner?_ne_give (sound : t.Sound) (present : g.place < t.handles.size) (n : Interner) :
    (t.handles.give n).2.owner? g ≠ (t.handles.give n).2.owner? (t.handles.give n).1 := by
  obtain ⟨m, root, _, _, tells⟩ := sound.exists_tells present
  obtain ⟨owner, inside, named⟩ := owner?_lt tells.at?_eq
  rw [(adds_give t.handles n).owner? g present, owner?_give, named]
  exact fun same => Nat.ne_of_lt inside (Option.some.inj same)

/-- Nothing was done yet through a new handle. -/
theorem uses_give (sound : t.Sound) (n : Interner) :
    (t.step (.give n)).uses (t.handles.give n).1 = [] := by
  refine List.filterMap_eq_nil_iff.mpr fun e member => ?_
  rcases List.mem_append.mp member with old | new
  · cases e with
    | used g u seen =>
        have apart := sound.owner?_ne_give (sound.used g u seen old) n
        simp [Event.through, step, apart]
    | given | copied => rfl
  · obtain rfl := List.mem_singleton.mp new
    rfl

theorem give (sound : t.Sound) (n : Interner) : (t.step (.give n)).Sound where
  used := sound.used_adds (adds_give t.handles n) fun _ => rfl
  copied old made member := by
    rcases List.mem_append.mp member with earlier | new
    · exact sound.copied_adds (adds_give t.handles n) earlier
    · cases List.mem_singleton.mp new
  rooted h present := by
    have size : (t.step (.give n)).handles.size = t.handles.size + 1 := (adds_give _ n).size
    rw [size] at present
    rcases Nat.lt_succ_iff_lt_or_eq.mp present with old | new
    · exact sound.rooted_snoc old
    · obtain rfl : h = (t.handles.give n).1 := congrArg Handle.mk new
      exact ⟨n, _, List.mem_append_right _ (List.mem_singleton_self _), .refl _⟩
  tells m root member := by
    rcases List.mem_append.mp member with old | new
    · exact sound.tells_adds (adds_give t.handles n) (fun _ => rfl) old
    · cases List.mem_singleton.mp new
      have unused := sound.uses_give n
      exact ⟨unused ▸ at?_give t.handles n, unused ▸ rfl⟩
  alone m root k other member member' same := by
    have adds := adds_give t.handles n
    have apart {root : Handle} {m : Interner} (old : .given m root ∈ t.log) :=
      sound.owner?_ne_give (sound.place_lt_of_given old) n
    rcases List.mem_append.mp member with old | new <;>
      rcases List.mem_append.mp member' with old' | new'
    · exact sound.alone_adds adds old old' same
    · cases List.mem_singleton.mp new'
      exact absurd same (apart old)
    · cases List.mem_singleton.mp new
      exact absurd same.symm (apart old')
    · cases List.mem_singleton.mp new
      cases List.mem_singleton.mp new'
      rfl

theorem duplicate (sound : t.Sound) (h : Handle) : (t.step (.duplicate h)).Sound := by
  rcases Nat.lt_or_ge h.place t.handles.size with present | absent
  · obtain ⟨n, root, given, connected, tells⟩ := sound.exists_tells present
    obtain ⟨after, step, adds, shared⟩ := step_duplicate tells.at?_eq
    rw [step]
    exact {
      used := sound.used_adds adds fun _ => rfl
      copied := fun old made member => by
        rcases List.mem_append.mp member with earlier | new
        · exact sound.copied_adds adds earlier
        · cases List.mem_singleton.mp new
          refine ⟨adds.size ▸ Nat.lt_succ_of_lt present, adds.size ▸ Nat.lt_succ_self _, ?_⟩
          exact (adds.owner? h present).trans shared.symm
      rooted := fun g inside => by
        rw [adds.size] at inside
        rcases Nat.lt_succ_iff_lt_or_eq.mp inside with old | new
        · exact sound.rooted_snoc old
        · obtain rfl : g = ⟨t.handles.size⟩ := congrArg Handle.mk new
          refine ⟨n, root, List.mem_append_left _ given, .trans _ _ _ (connected.snoc _) ?_⟩
          exact .rel _ _ (List.mem_append_right _ (List.mem_singleton_self _))
      tells := fun m other member => by
        rcases List.mem_append.mp member with old | new
        · exact sound.tells_adds adds (fun _ => rfl) old
        · cases List.mem_singleton.mp new
      alone := fun m first k second member member' same => by
        rcases List.mem_append.mp member with old | new
        · rcases List.mem_append.mp member' with old' | new'
          · exact sound.alone_adds adds old old' same
          · cases List.mem_singleton.mp new'
        · cases List.mem_singleton.mp new }
  · rw [step_duplicate_absent absent]
    exact sound

/-! ### A use -/

theorem uses_use (changes : t.handles.Changes h m after) (u : Use) (seen : Observation) :
    uses ⟨after, t.log ++ [.used h u seen]⟩ g =
      t.uses g ++ if t.handles.owner? h = t.handles.owner? g then [(u, seen)] else [] := by
  unfold uses
  simp only [changes.owner?, List.filterMap_append]
  congr 1
  by_cases shared : t.handles.owner? h = t.handles.owner? g <;> simp [Event.through, shared]

theorem tells_use (tells : t.Tells n g) (found : t.handles.at? h = some m) {u : Use}
    (changes : t.handles.Changes h (m.use u).2 after) :
    Tells ⟨after, t.log ++ [.used h u (m.use u).1]⟩ n g := by
  by_cases shared : t.handles.owner? h = t.handles.owner? g
  · have current : m = n.afterUses ((t.uses g).map Prod.fst) := by
      refine Option.some.inj ?_
      rw [← found, at?_eq_of_owner?_eq shared, tells.at?_eq]
    have uses := uses_use (g := g) changes u (m.use u).1
    rw [if_pos shared] at uses
    refine ⟨?_, ?_⟩
    · rw [uses, List.map_append, List.map_singleton, Interner.afterUses_snoc, ← current]
      exact changes.shared g shared.symm
    · rw [uses, List.map_append, List.map_append, List.map_singleton, List.map_singleton,
        Interner.observations_snoc, ← current, tells.seen_eq]
  · have uses := uses_use (g := g) changes u (m.use u).1
    rw [if_neg shared, List.append_nil] at uses
    refine ⟨?_, ?_⟩
    · rw [uses, ← tells.at?_eq]
      exact changes.apart g (Ne.symm shared)
    · rw [uses]
      exact tells.seen_eq

theorem mem_use {u : Use} {seen : Observation} {made : Handle}
    (member : .given n made ∈ t.log ++ [.used h u seen]) : .given n made ∈ t.log := by
  simpa using member

theorem use (sound : t.Sound) (h : Handle) (u : Use) : (t.step (.use h u)).Sound := by
  cases found : t.handles.at? h with
  | none =>
      rw [step_use_absent found]
      exact sound
  | some m =>
      obtain ⟨after, step, changes⟩ := step_use found u
      rw [step]
      exact {
        used := fun g v seen member => by
          rw [changes.size]
          rcases List.mem_append.mp member with old | new
          · exact sound.used g v seen old
          · cases List.mem_singleton.mp new
            exact place_lt_size found
        copied := fun old made member => by
          rw [changes.size, changes.owner?, changes.owner?]
          rcases List.mem_append.mp member with earlier | new
          · exact sound.copied old made earlier
          · cases List.mem_singleton.mp new
        rooted := fun g inside => sound.rooted_snoc (changes.size ▸ inside)
        tells := fun n root given =>
          tells_use (sound.tells n root (mem_use given)) found changes
        alone := fun n root k other given given' same => by
          rw [changes.owner?, changes.owner?] at same
          exact sound.alone n root k other (mem_use given) (mem_use given') same }

end Sound

theorem sound_step (sound : t.Sound) (s : Step) : (t.step s).Sound := by
  cases s with
  | give n => exact sound.give n
  | duplicate h => exact sound.duplicate h
  | use h u => exact sound.use h u

theorem sound_steps (sound : t.Sound) (steps : List Step) : (steps.foldl Trace.step t).Sound := by
  induction steps generalizing t with
  | nil => exact sound
  | cons s steps ih => exact ih (sound_step sound s)

/-! ## What a log says by itself -/

open Classical in
/-- The uses through the handles that are connected to `h`, in their order. -/
noncomputable def usesConnected (log : List Event) (h : Handle) : List (Use × Observation) :=
  log.filterMap (Event.through fun g => Connected log g h)

theorem Sound.uses_eq (sound : t.Sound) (present : h.place < t.handles.size) :
    t.uses h = usesConnected t.log h := by
  refine List.filterMap_congr fun e member => ?_
  cases e with
  | used g u seen =>
      have same := sound.owner?_eq_iff (sound.used g u seen member) present
      by_cases shared : t.handles.owner? g = t.handles.owner? h
      · simp [Event.through, shared, same.mp shared]
      · simp [Event.through, shared, mt same.mpr shared]
  | given | copied => rfl

/-- A step that is not a use through a connected handle leaves what a handle names. -/
theorem Sound.at?_step (sound : t.Sound) (s : Step) (present : g.place < t.handles.size)
    (apart : ∀ h u, s = .use h u → ¬Connected t.log h g) :
    (t.step s).handles.at? g = t.handles.at? g := by
  obtain ⟨n, _, _, _, tells⟩ := sound.exists_tells present
  cases s with
  | give k => exact (adds_give t.handles k).at? g _ tells.at?_eq |>.trans tells.at?_eq.symm
  | duplicate h =>
      rcases Nat.lt_or_ge h.place t.handles.size with present' | absent
      · obtain ⟨m, _, _, _, tells'⟩ := sound.exists_tells present'
        obtain ⟨after, step, adds, _⟩ := step_duplicate tells'.at?_eq
        rw [step, tells.at?_eq]
        exact adds.at? g _ tells.at?_eq
      · rw [step_duplicate_absent absent]
  | use h u =>
      cases found : t.handles.at? h with
      | none => rw [step_use_absent found]
      | some m =>
          obtain ⟨after, step, changes⟩ := step_use found u
          rw [step]
          refine changes.apart g fun same => apart h u rfl ?_
          exact (sound.owner?_eq_iff (place_lt_size found) present).mp same.symm

/-- Connected handles name one interner and others do not; what is seen through a handle is
what the interner alone shows, and what goes on elsewhere does not change it. -/
structure Faithful (t : Trace) : Prop where
  shares : ∀ h g, h.place < t.handles.size → g.place < t.handles.size →
    (t.handles.owner? h = t.handles.owner? g ↔ Connected t.log h g)
  rooted : ∀ h, h.place < t.handles.size → ∃ n root, .given n root ∈ t.log ∧ Connected t.log root h
  alone : ∀ n root h, .given n root ∈ t.log → Connected t.log root h →
    t.handles.at? h = some (n.afterUses ((usesConnected t.log h).map Prod.fst)) ∧
    (usesConnected t.log h).map Prod.snd =
      n.observations ((usesConnected t.log h).map Prod.fst)
  apart : ∀ s g, g.place < t.handles.size → (∀ h u, s = .use h u → ¬Connected t.log h g) →
    (t.step s).handles.at? g = t.handles.at? g
  /-- A handle that is given an interner finds all that was in it. -/
  gives : ∀ n, (t.step (.give n)).log = t.log ++ [.given n ⟨t.handles.size⟩] ∧
    (t.step (.give n)).handles.at? ⟨t.handles.size⟩ = some n
  duplicates : ∀ h, h.place < t.handles.size →
    (t.step (.duplicate h)).log = t.log ++ [.copied h ⟨t.handles.size⟩]
  /-- A use through a handle always shows something. -/
  answers : ∀ h u, h.place < t.handles.size →
    ∃ seen, (t.step (.use h u)).log = t.log ++ [.used h u seen]

theorem Sound.faithful (sound : t.Sound) : t.Faithful where
  shares _ _ := sound.owner?_eq_iff
  rooted := sound.rooted
  alone n root h given connected := by
    have shared := sound.owner?_eq_of_connected connected
    have tells := Sound.tells_of_owner?_eq (sound.tells n root given) shared
    rw [← sound.uses_eq (place_lt_size tells.at?_eq)]
    exact ⟨tells.at?_eq, tells.seen_eq⟩
  apart s _ := sound.at?_step s
  gives n := ⟨rfl, at?_give t.handles n⟩
  duplicates h present := by
    obtain ⟨_, _, _, _, tells⟩ := sound.exists_tells present
    obtain ⟨_, step, _, _⟩ := step_duplicate tells.at?_eq
    rw [step]
  answers h u present := by
    obtain ⟨_, _, _, _, tells⟩ := sound.exists_tells present
    obtain ⟨_, step, _⟩ := step_use tells.at?_eq u
    exact ⟨_, congrArg Trace.log step⟩

end Trace

/-- Whatever is done with handles, they share as they were duplicated and in no other way. -/
theorem trace_faithful (steps : List Step) : (trace steps).Faithful :=
  (Trace.sound_steps Trace.sound_start steps).faithful

/-- A duplicate shows what was done through the other handle; a handle of its own does not. -/
example :
    ((trace [.give .empty, .duplicate ⟨0⟩, .give .empty, .use ⟨0⟩ (.call .release),
      .use ⟨1⟩ .look, .use ⟨2⟩ .look]).log.filterMap (Event.through fun _ => true)).map Prod.snd =
      [.answer .nothing, .state 0 false, .state 0 true] :=
  rfl

end Handles

end Lexis
