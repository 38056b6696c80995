/-
# Lexis.Proofs.Interning -- an interner is the list of its texts

What an interner answers depends on nothing but the texts interned so far, each
where it first came.  `Holds` says that of one interner, `Holds.intern` what a text
does to it, and `Holds.after` what a list of calls leaves.  The index takes part only
in this: when it is held it finds what the list has (`Indexes`), one that was rebuilt
like one that was kept up (`indexes_indexFrom`).

A run keeps what its callers see: the answers and the sizes.  Every call of it is
performed in a state that the calls before it leave (`exists_of_mem_run`), so the
symbols it gives are places in the list, a text once given stays, and a run without
its releases is the same run (`Holds.run_filter`).  `mirrors_interned` collects this for
all calls on an empty interner.
-/
import Lexis.Interner.Call
import Mathlib.Data.List.Induction
import Mathlib.Data.List.Nodup

namespace Lexis.Interner

set_option autoImplicit false

/-! ## Runs -/

namespace Call

/-- The text that a call interns. -/
def text? : Call → Option String
  | .intern text => some text
  | .tryIntern text => some text
  | _ => none

def isRelease : Call → Bool
  | .release => true
  | _ => false

/-- Whether a call decides if the index is held. -/
def setsIndex (c : Call) : Bool :=
  c.text?.isSome || c.isRelease

/-- A call that is about texts and symbols alone. -/
def Direct (c : Call) : Prop :=
  ∀ source, c ≠ .lex source

end Call

/-- A call as its caller sees it. -/
structure Step where
  call : Call
  answer : Answer
  /-- The number of texts afterwards. -/
  size : Nat

/-- The interner that calls leave. -/
def after (n : Interner) (calls : List Call) : Interner :=
  calls.foldl (fun n c => (n.perform c).2) n

def run (n : Interner) : List Call → List Step
  | [] => []
  | c :: calls => ⟨c, (n.perform c).1, (n.perform c).2.size⟩ :: (n.perform c).2.run calls

theorem after_append (n : Interner) (front back : List Call) :
    n.after (front ++ back) = (n.after front).after back :=
  List.foldl_append

theorem exists_of_mem_run {n : Interner} {calls : List Call} {step : Step}
    (made : step ∈ n.run calls) :
    ∃ front back, calls = front ++ step.call :: back ∧
      step.answer = ((n.after front).perform step.call).1 := by
  induction calls generalizing n with
  | nil => exact absurd made List.not_mem_nil
  | cons c calls ih =>
      rcases List.mem_cons.mp made with rfl | later
      · exact ⟨[], calls, rfl, rfl⟩
      · obtain ⟨front, back, rfl, answer⟩ := ih later
        exact ⟨c :: front, back, rfl, answer⟩

/-! ## Texts where they first come -/

section Firsts

theorem eraseDups_snoc_of_mem {α : Type} [BEq α] [LawfulBEq α] {seen : List α} {a : α}
    (old : a ∈ seen) : (seen ++ [a]).eraseDups = seen.eraseDups := by
  rw [List.eraseDups_append]
  simp [List.removeAll, old]

theorem eraseDups_snoc_of_notMem {α : Type} [BEq α] [LawfulBEq α] {seen : List α} {a : α}
    (new : a ∉ seen) : (seen ++ [a]).eraseDups = seen.eraseDups ++ [a] := by
  rw [List.eraseDups_append]
  simp [List.removeAll, new, List.eraseDups_cons]

/-- What has different images has its firsts at the same places. -/
theorem map_eraseDups {α β : Type} [BEq α] [LawfulBEq α] [BEq β] [LawfulBEq β] {f : α → β}
    (injective : Function.Injective f) (l : List α) :
    l.eraseDups.map f = (l.map f).eraseDups := by
  induction l using List.reverseRecOn with
  | nil => rfl
  | append_singleton l a ih =>
      have image : f a ∈ l.map f ↔ a ∈ l := List.mem_map_of_injective injective
      rw [List.map_append, List.map_singleton]
      by_cases old : a ∈ l
      · rw [eraseDups_snoc_of_mem old, eraseDups_snoc_of_mem (image.mpr old), ih]
      · rw [eraseDups_snoc_of_notMem old, eraseDups_snoc_of_notMem (mt image.mp old),
          List.map_append, ih, List.map_singleton]

theorem nodup_eraseDups (seen : List String) : seen.eraseDups.Nodup := by
  induction seen using List.reverseRecOn with
  | nil => exact List.nodup_nil
  | append_singleton seen text ih =>
      by_cases old : text ∈ seen
      · rw [eraseDups_snoc_of_mem old]
        exact ih
      · rw [eraseDups_snoc_of_notMem old]
        have apart : text ∉ seen.eraseDups := fun member => old (List.mem_eraseDups.mp member)
        exact List.nodup_append.mpr ⟨ih, List.nodup_singleton _, by
          rintro a earlier b last rfl
          exact apart (List.mem_singleton.mp last ▸ earlier)⟩

theorem isPrefix_eraseDups (front back : List String) :
    front.eraseDups <+: (front ++ back).eraseDups := by
  rw [List.eraseDups_append]
  exact List.prefix_append _ _

/-- Texts for whose symbols 32 bits are enough. -/
def Room (seen : List String) : Prop :=
  seen.eraseDups.length ≤ Symbol.maxId

instance (seen : List String) : Decidable (Room seen) :=
  inferInstanceAs (Decidable (_ ≤ _))

theorem Room.of_append {front back : List String} (room : Room (front ++ back)) : Room front :=
  Nat.le_trans (isPrefix_eraseDups front back).length_le room

end Firsts

/-! ## The index -/

/-- The index finds the place of every text, and nothing else. -/
def Indexes (held : Std.HashMap String Symbol) (texts : List String) : Prop :=
  ∀ (text : String) (symbol : Symbol), held[text]? = some symbol ↔ texts[symbol.id]? = some text

theorem indexes_empty : Indexes ∅ [] := by
  intro text symbol
  simp

theorem Indexes.insert {held : Std.HashMap String Symbol} {texts : List String} {text : String}
    (finds : Indexes held texts) (new : text ∉ texts) :
    Indexes (held.insert text ⟨texts.length⟩) (texts ++ [text]) := by
  intro other symbol
  rw [Std.HashMap.getElem?_insert]
  by_cases same : text = other
  · subst same
    rw [if_pos (beq_self_eq_true text)]
    constructor
    · rintro found
      cases found
      exact List.getElem?_concat_length
    · intro found
      by_cases inside : symbol.id < texts.length
      · rw [List.getElem?_append_left inside] at found
        exact absurd (List.mem_of_getElem? found) new
      · obtain ⟨bound, _⟩ := List.getElem?_eq_some_iff.mp found
        rw [List.length_append, List.length_singleton] at bound
        have place : symbol.id = texts.length := by omega
        rw [← place]
  · rw [if_neg (by simpa using same), finds]
    by_cases inside : symbol.id < texts.length
    · rw [List.getElem?_append_left inside]
    · rw [List.getElem?_append_right (by omega), List.getElem?_eq_none (by omega),
        List.getElem?_singleton]
      simp [same]

theorem indexFrom_snoc (texts : List String) (text : String) :
    indexFrom 0 (texts ++ [text]) = (indexFrom 0 texts).insert text ⟨texts.length⟩ := by
  simp [indexFrom, List.zipIdx_append, List.foldl_append]

/-- An index that is rebuilt finds the texts at their old places. -/
theorem indexes_indexFrom {texts : List String} (apart : texts.Nodup) :
    Indexes (indexFrom 0 texts) texts := by
  induction texts using List.reverseRecOn with
  | nil => exact indexes_empty
  | append_singleton texts text ih =>
      obtain ⟨before, _, disjoint⟩ := List.nodup_append.mp apart
      rw [indexFrom_snoc]
      exact (ih before).insert fun earlier =>
        disjoint text earlier text (List.mem_singleton_self text) rfl

/-- What interning can do: find the text, or add it at the end. -/
theorem intern_cases (n : Interner) (text : String) :
    (∃ symbol, n.lookup[text]? = some symbol ∧
      n.intern text = (symbol, ⟨n.texts, some n.lookup⟩)) ∨
    (n.lookup[text]? = none ∧ n.intern text = (⟨n.texts.size⟩,
      ⟨n.texts.push text, some (n.lookup.insert text ⟨n.texts.size⟩)⟩)) := by
  obtain ⟨texts, index⟩ := n
  generalize isLookup : Interner.lookup ⟨texts, index⟩ = held
  have result : Interner.intern text ⟨texts, index⟩ = Interner.intern text ⟨texts, some held⟩ := by
    rw [← isLookup]
    cases index <;> rfl
  rw [result, intern]
  cases found : held[text]? with
  | some symbol => exact .inl ⟨symbol, rfl, rfl⟩
  | none => exact .inr ⟨rfl, rfl⟩

/-- A text is interned unless it is new and its symbol would be out of range; even then
the index is rebuilt. -/
theorem intern?_cases (n : Interner) (text : String) :
    n.intern? text = (.ok (n.intern text).1, (n.intern text).2) ∨
    (Symbol.maxId < (n.intern text).1.id ∧
      n.intern? text = (.error (.full n.size), n.reindex)) := by
  by_cases accepts : (n.lookup.contains text || decide (n.size ≤ Symbol.maxId)) = true
  · exact .inl (if_pos accepts)
  · refine .inr ⟨?_, if_neg accepts⟩
    simp only [Bool.or_eq_true, decide_eq_true_eq, not_or] at accepts
    obtain ⟨isNew, noRoom⟩ := accepts
    rcases n.intern_cases text with ⟨symbol, found, _⟩ | ⟨_, result⟩
    · rw [Std.HashMap.contains_eq_isSome_getElem?, found] at isNew
      exact absurd rfl isNew
    · rw [result]
      exact Nat.lt_of_not_le noRoom

theorem intern?_of_le {n : Interner} {text : String}
    (fits : (n.intern text).1.id ≤ Symbol.maxId) :
    n.intern? text = (.ok (n.intern text).1, (n.intern text).2) :=
  (n.intern?_cases text).resolve_right fun refused => Nat.not_lt.mpr fits refused.1

/-! ## What an interner holds -/

/-- The interner of the texts in `seen`, each where it first came. -/
structure Holds (n : Interner) (seen : List String) : Prop where
  texts : n.texts.toList = seen.eraseDups
  index : ∀ held, n.index = some held → Indexes held seen.eraseDups

theorem holds_empty : empty.Holds [] where
  texts := rfl
  index := by
    intro held isHeld
    cases isHeld
    exact indexes_empty

namespace Holds

variable {n m : Interner} {seen : List String}

theorem size_eq (holds : n.Holds seen) : n.size = seen.eraseDups.length := by
  rw [← holds.texts, Array.length_toList]
  rfl

theorem resolve?_eq (holds : n.Holds seen) (symbol : Symbol) :
    n.resolve? symbol = seen.eraseDups[symbol.id]? := by
  rw [← holds.texts, Array.getElem?_toList]
  rfl

theorem release (holds : n.Holds seen) : n.release.Holds seen where
  texts := holds.texts
  index := by
    intro held isHeld
    cases isHeld

theorem lookup (holds : n.Holds seen) : Indexes n.lookup seen.eraseDups := by
  cases isHeld : n.index with
  | some held =>
      rw [Interner.lookup, isHeld]
      exact holds.index held isHeld
  | none =>
      rw [Interner.lookup, isHeld, ← holds.texts]
      exact indexes_indexFrom (holds.texts ▸ nodup_eraseDups seen)

theorem reindex (holds : n.Holds seen) : n.reindex.Holds seen where
  texts := holds.texts
  index := by
    rintro _ ⟨⟩
    exact holds.lookup

/-- Interning, with the index held or rebuilt, gives the place of the text. -/
theorem intern (holds : n.Holds seen) (text : String) :
    (n.intern text).1 = ⟨(seen ++ [text]).eraseDups.idxOf text⟩ ∧
      (n.intern text).2.Holds (seen ++ [text]) := by
  have finds := holds.lookup
  rcases n.intern_cases text with ⟨symbol, found, result⟩ | ⟨missing, result⟩
  · have place := (finds text symbol).mp found
    have old := eraseDups_snoc_of_mem (List.mem_eraseDups.mp (List.mem_of_getElem? place))
    rw [result]
    refine ⟨?_, holds.texts.trans old.symm, ?_⟩
    · obtain ⟨inside, isText⟩ := List.getElem?_eq_some_iff.mp place
      rw [old, ← isText, (nodup_eraseDups seen).idxOf_getElem]
    · rintro _ ⟨⟩
      rw [old]
      exact finds
  · have absent : text ∉ seen.eraseDups := by
      intro present
      have known := (finds text ⟨_⟩).mpr (List.getElem?_idxOf present)
      rw [missing] at known
      cases known
    have new := eraseDups_snoc_of_notMem fun old => absent (List.mem_eraseDups.mpr old)
    have count : n.texts.size = seen.eraseDups.length := holds.size_eq
    rw [result, new]
    refine ⟨?_, ?_, ?_⟩
    · rw [count, List.idxOf_append_of_notMem absent, List.idxOf_cons_self, Nat.add_zero]
    · rw [new, Array.toList_push, holds.texts]
    · rintro _ ⟨⟩
      rw [new, count]
      exact finds.insert absent

end Holds

/-! ## Calls -/

variable {n m : Interner} {seen : List String} {c : Call}

theorem perform_of_text? {text : String} (named : c.text? = some text)
    (fits : (n.intern text).1.id ≤ Symbol.maxId) :
    n.perform c = (.symbol (n.intern text).1, (n.intern text).2) := by
  cases c with
  | intern other | tryIntern other =>
      cases named
      simp only [perform, intern?_of_le fits, Answer.ofIntern?]
  | _ => cases named

/-- A call that interns nothing lets the index go or changes nothing. -/
theorem perform_of_text?_eq_none (silent : c.text? = none) (direct : c.Direct) :
    (n.perform c).2 = if c.isRelease then n.release else n := by
  cases c with
  | intern text => cases silent
  | tryIntern text => cases silent
  | tryResolve symbol => rfl
  | resolve symbol =>
      simp only [perform]
      split <;> rfl
  | release => rfl
  | lex source => exact absurd rfl (direct source)

theorem perform_resolve (n : Interner) (symbol : Symbol) :
    (n.perform (.resolve symbol)).1 = match n.resolve? symbol with
      | some text => .text (some text)
      | none => .error (.notIssued symbol) := by
  simp only [perform, resolve]
  cases n.resolve? symbol <;> rfl

namespace Holds

/-- A text that a call interns gets its place in the list as its symbol. -/
theorem perform_text {text : String} (holds : n.Holds seen) (named : c.text? = some text)
    (room : Room (seen ++ [text])) :
    (n.perform c).1 = .symbol ⟨(seen ++ [text]).eraseDups.idxOf text⟩ ∧
      (n.perform c).2.Holds (seen ++ [text]) ∧ (n.perform c).2.indexed = true := by
  obtain ⟨symbol, grown⟩ := holds.intern text
  have present : text ∈ (seen ++ [text]).eraseDups := by simp
  have inside := List.idxOf_lt_length_of_mem present
  have fits : (n.intern text).1.id ≤ Symbol.maxId := by
    rw [symbol]
    exact Nat.le_of_lt (Nat.lt_of_lt_of_le inside room)
  rw [perform_of_text? named fits, symbol]
  exact ⟨rfl, grown, indexed_intern text n⟩

theorem perform (holds : n.Holds seen) (direct : c.Direct) (room : Room (seen ++ c.text?.toList)) :
    (n.perform c).2.Holds (seen ++ c.text?.toList) := by
  cases named : c.text? with
  | some text =>
      rw [named] at room
      exact (holds.perform_text named room).2.1
  | none =>
      rw [perform_of_text?_eq_none named direct, Option.toList_none, List.append_nil]
      split
      · exact holds.release
      · exact holds

/-- The answer to a call depends on the texts alone. -/
theorem answer_eq (holds : n.Holds seen) (holds' : m.Holds seen) (direct : c.Direct)
    (room : Room (seen ++ c.text?.toList)) : (n.perform c).1 = (m.perform c).1 := by
  have same (symbol : Symbol) : n.resolve? symbol = m.resolve? symbol := by
    rw [holds.resolve?_eq, holds'.resolve?_eq]
  cases c with
  | intern text => rw [(holds.perform_text rfl room).1, (holds'.perform_text rfl room).1]
  | tryIntern text => rw [(holds.perform_text rfl room).1, (holds'.perform_text rfl room).1]
  | tryResolve symbol => exact congrArg Answer.text (same symbol)
  | resolve symbol =>
      rw [perform_resolve, perform_resolve, same]
  | release => rfl
  | lex source => exact absurd rfl (direct source)

end Holds

/-! ## Runs of calls -/

section Calls

variable {calls : List Call}

/-- The texts that calls intern, in turn. -/
def interned (calls : List Call) : List String :=
  calls.filterMap Call.text?

theorem interned_append (front back : List Call) :
    interned (front ++ back) = interned front ++ interned back :=
  List.filterMap_append

theorem interned_cons (c : Call) (calls : List Call) :
    interned (c :: calls) = c.text?.toList ++ interned calls := by
  cases named : c.text? <;> simp [interned, named]

theorem Holds.after (holds : n.Holds seen) (direct : ∀ c ∈ calls, c.Direct)
    (room : Room (seen ++ interned calls)) : (n.after calls).Holds (seen ++ interned calls) := by
  induction calls generalizing n seen with
  | nil =>
      rw [show interned [] = [] from rfl, List.append_nil]
      exact holds
  | cons c calls ih =>
      obtain ⟨here, later⟩ := List.forall_mem_cons.mp direct
      rw [interned_cons, ← List.append_assoc] at room ⊢
      exact ih (holds.perform here room.of_append) later room

/-- Without the releases, which callers see no effect of, a run is the same. -/
theorem Holds.run_filter (holds : n.Holds seen) (holds' : m.Holds seen)
    (direct : ∀ c ∈ calls, c.Direct) (room : Room (seen ++ interned calls)) :
    m.run (calls.filter fun c => !c.isRelease) =
      (n.run calls).filter fun step => !step.call.isRelease := by
  induction calls generalizing n m seen with
  | nil => rfl
  | cons c calls ih =>
      obtain ⟨here, later⟩ := List.forall_mem_cons.mp direct
      rw [interned_cons, ← List.append_assoc] at room
      have next := holds.perform here room.of_append
      cases released : c.isRelease with
      | true =>
          have silent : c.text?.toList = [] := by
            cases c with
            | release => rfl
            | _ => cases released
          rw [silent, List.append_nil] at next room
          rw [List.filter_cons_of_neg (by simp [released]), run,
            List.filter_cons_of_neg (by simp [released])]
          exact ih next holds' later room
      | false =>
          have next' := holds'.perform here room.of_append
          rw [List.filter_cons_of_pos (by simp [released]), run, run,
            List.filter_cons_of_pos (by simp [released]), ih next next' later room,
            holds.answer_eq holds' here room.of_append, next.size_eq, next'.size_eq]

theorem holds_after (direct : ∀ c ∈ calls, c.Direct) (room : Room (interned calls)) :
    (empty.after calls).Holds (interned calls) :=
  holds_empty.after direct room

/-- The index is held unless the last call that decides on it was a release. -/
theorem indexed_after (direct : ∀ c ∈ calls, c.Direct) (room : Room (interned calls)) :
    (empty.after calls).indexed = false ↔
      (calls.filter Call.setsIndex).getLast? = some .release := by
  induction calls using List.reverseRecOn with
  | nil =>
      have held : empty.indexed ≠ false := by decide
      exact iff_of_false held (by rintro ⟨⟩)
  | append_singleton calls c ih =>
      obtain ⟨before, here⟩ := List.forall_mem_append.mp direct
      have isDirect := here c (List.mem_singleton_self c)
      rw [interned_append] at room
      have holds := holds_after before room.of_append
      rw [after_append, List.filter_append]
      show ((empty.after calls).perform c).2.indexed = false ↔ _
      cases named : c.text? with
      | some text =>
          have sets : c.setsIndex = true := by simp [Call.setsIndex, named]
          have grows : interned [c] = [text] := by simp [interned, named]
          rw [grows] at room
          rw [(holds.perform_text named room).2.2, List.filter_cons_of_pos sets, List.filter_nil,
            List.getLast?_concat]
          constructor
          · exact fun held => absurd held (by decide)
          · intro last
            cases last
            cases named
      | none =>
          rw [perform_of_text?_eq_none named isDirect]
          cases released : c.isRelease with
          | true =>
              have sets : c.setsIndex = true := by simp [Call.setsIndex, released]
              have isRelease : c = .release := by
                cases c with
                | release => rfl
                | _ => cases released
              rw [List.filter_cons_of_pos sets, List.filter_nil, List.getLast?_concat, isRelease]
              exact iff_of_true rfl rfl
          | false =>
              have keeps : c.setsIndex = false := by simp [Call.setsIndex, named, released]
              rw [List.filter_cons_of_neg (by simp [keeps]), List.filter_nil, List.append_nil]
              exact ih before room.of_append

/-- Every text that a run interned has its place among all of its texts as its symbol. -/
theorem symbol_of_mem_run (direct : ∀ c ∈ calls, c.Direct) (room : Room (interned calls))
    {step : Step} (made : step ∈ empty.run calls) {text : String}
    (named : step.call.text? = some text) :
    text ∈ (interned calls).eraseDups ∧
      step.answer = .symbol ⟨(interned calls).eraseDups.idxOf text⟩ := by
  obtain ⟨front, back, rfl, answer⟩ := exists_of_mem_run made
  have upTo : interned (front ++ step.call :: back) = interned front ++ [text] ++ interned back := by
    rw [interned_append, interned_cons, named, Option.toList_some, List.append_assoc]
  rw [upTo] at room ⊢
  have holds := holds_after (List.forall_mem_append.mp direct).1 room.of_append.of_append
  have here : text ∈ (interned front ++ [text]).eraseDups := by simp
  have stays := isPrefix_eraseDups (interned front ++ [text]) (interned back)
  rw [answer, (holds.perform_text named room.of_append).1, stays.idxOf_eq_of_mem here]
  exact ⟨stays.subset here, rfl⟩

/-- A text that a symbol was resolved to in a run is the text of that place for good. -/
theorem text_of_mem_run (direct : ∀ c ∈ calls, c.Direct) (room : Room (interned calls))
    {step : Step} (made : step ∈ empty.run calls) {symbol : Symbol} {text : String}
    (resolves : step.call = .tryResolve symbol ∨ step.call = .resolve symbol)
    (answered : step.answer = .text (some text)) :
    (interned calls).eraseDups[symbol.id]? = some text := by
  obtain ⟨front, back, rfl, answer⟩ := exists_of_mem_run made
  rw [interned_append] at room ⊢
  have holds := holds_after (List.forall_mem_append.mp direct).1 room.of_append
  have known : (interned front).eraseDups[symbol.id]? = some text := by
    rw [← holds.resolve?_eq]
    rw [answered] at answer
    rcases resolves with called | called
    · rw [called] at answer
      exact (Answer.text.inj answer).symm
    · rw [called, perform_resolve] at answer
      cases resolved : (empty.after front).resolve? symbol with
      | some other =>
          rw [resolved] at answer
          exact (Answer.text.inj answer).symm
      | none =>
          rw [resolved] at answer
          cases answer
  obtain ⟨inside, _⟩ := List.getElem?_eq_some_iff.mp known
  obtain ⟨later, whole⟩ := isPrefix_eraseDups (interned front) (interned (step.call :: back))
  rw [← whole, List.getElem?_append_left inside, known]

/-! ## The interner and the list -/

/-- After `calls` on an empty interner it is the list `texts`, and all that it answered
to them is read off that list. -/
structure Mirrors (calls : List Call) (texts : List String) : Prop where
  /-- The texts stand in this order, each once. -/
  toList_texts : (empty.after calls).texts.toList = texts
  nodup : texts.Nodup
  /-- Whenever a text was interned, it was given its place. -/
  symbol : ∀ step ∈ empty.run calls, ∀ text, step.call.text? = some text →
    text ∈ texts ∧ step.answer = .symbol ⟨texts.idxOf text⟩
  symbol_eq_iff : ∀ step ∈ empty.run calls, ∀ other ∈ empty.run calls, ∀ text text',
    step.call.text? = some text → other.call.text? = some text' →
      (step.answer = other.answer ↔ text = text')
  tryResolve : ∀ symbol : Symbol,
    ((empty.after calls).perform (.tryResolve symbol)).1 = .text texts[symbol.id]?
  resolve : ∀ symbol : Symbol, ((empty.after calls).perform (.resolve symbol)).1 =
    match texts[symbol.id]? with
    | some text => .text (some text)
    | none => .error (.notIssued symbol)
  /-- A text that a symbol was resolved to is still its text. -/
  kept : ∀ step ∈ empty.run calls, ∀ (symbol : Symbol) text,
    step.call = .tryResolve symbol ∨ step.call = .resolve symbol →
      step.answer = .text (some text) → texts[symbol.id]? = some text
  index : ∀ held, (empty.after calls).index = some held → Indexes held texts
  indexed_iff : (empty.after calls).indexed = false ↔
    (calls.filter Call.setsIndex).getLast? = some .release
  /-- Without the releases every other call has the same answer and leaves as many texts. -/
  run_filter : empty.run (calls.filter fun c => !c.isRelease) =
    (empty.run calls).filter fun step => !step.call.isRelease

/-- **An interner is the list of the texts interned in it, each where it first came**,
after all calls on an empty one and at every call of the run. -/
theorem mirrors_interned (calls : List Call) (direct : ∀ c ∈ calls, c.Direct)
    (room : Room (interned calls)) : Mirrors calls (interned calls).eraseDups := by
  have holds := holds_after direct room
  have resolves := holds.resolve?_eq
  refine
    { toList_texts := holds.texts
      nodup := nodup_eraseDups _
      symbol := fun step made text named => symbol_of_mem_run direct room made named
      symbol_eq_iff := ?_
      tryResolve := fun symbol => congrArg Answer.text (resolves symbol)
      resolve := ?_
      kept := fun step made symbol text => text_of_mem_run direct room made
      index := holds.index
      indexed_iff := indexed_after direct room
      run_filter := holds_empty.run_filter holds_empty direct room }
  · intro step made other made' text text' named named'
    obtain ⟨present, answer⟩ := symbol_of_mem_run direct room made named
    obtain ⟨_, answer'⟩ := symbol_of_mem_run direct room made' named'
    rw [answer, answer', Answer.symbol.injEq, Symbol.mk.injEq]
    exact List.idxOf_inj present
  · intro symbol
    rw [perform_resolve, resolves]

/-- A text before a release, another one and the first again after it. -/
theorem mirrors_interned_release :
    let calls : List Call := [.intern "a", .release, .tryIntern "b", .resolve ⟨1⟩, .intern "a",
      .tryResolve ⟨2⟩, .release]
    (∀ c ∈ calls, c.Direct) ∧ Room (interned calls) ∧ Mirrors calls ["a", "b"] := by
  intro calls
  have direct : ∀ c ∈ calls, c.Direct := by simp [calls, Call.Direct]
  have firsts : (interned calls).eraseDups = ["a", "b"] := by decide
  have room : Room (interned calls) := by decide +kernel
  exact ⟨direct, room, firsts ▸ mirrors_interned calls direct room⟩

end Calls

end Lexis.Interner
