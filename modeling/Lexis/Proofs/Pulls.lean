/-
# Lexis.Proofs.Pulls -- runs of pulls, over one sink and over another

A scanner is pulled from again and again, for one token or for all that are left
(`Scanner.pulls`).  What every call of `next` keeps, every such run keeps: of the scanner
(`Kept.pulls`), or of the scanner and all tokens that were given (`Records.pulls`).

A scanner only ever emits into its sink.  So where a map takes one sink to another and
keeps emissions (`Sink.Carries`), the scanner over the first is the scanner over the
second: the tokens, the names and the place are the same, and the map takes the one sink
to the other at every moment (`pulls_mapSink`).
-/
import Lexis.Proofs.Naming

namespace Lexis

set_option autoImplicit false

namespace Scanner

variable {σ : Type}

/-- What a run of pulls has given, and what it leaves. -/
structure Pulled (σ : Type) where
  /-- The tokens of each pull. -/
  tokens : List (List Token)
  scanner : Scanner σ
  known : Interner

def pulls [Sink σ] (s : Scanner σ) (known : Interner) : List Pull → Pulled σ
  | [] => ⟨[], s, known⟩
  | p :: ps =>
      let (tokens, s, known) := s.pull known p
      let later := s.pulls known ps
      { later with tokens := tokens :: later.tokens }

end Scanner

/-! ## What runs keep -/

namespace Scanner

variable {σ : Type} [Sink σ]

/-- Every call of `next` keeps it, with the tokens that were given. -/
def Records (P : List Token → Scanner σ → Interner → Prop) : Prop :=
  ∀ given s known, P given s known →
    P (given ++ [(s.next known).1]) (s.next known).2.1 (s.next known).2.2

theorem pulls_cons (s : Scanner σ) (known : Interner) (p : Pull) (ps : List Pull) :
    s.pulls known (p :: ps) =
      ⟨(s.pull known p).1 :: ((s.pull known p).2.1.pulls (s.pull known p).2.2 ps).tokens,
        ((s.pull known p).2.1.pulls (s.pull known p).2.2 ps).scanner,
        ((s.pull known p).2.1.pulls (s.pull known p).2.2 ps).known⟩ := rfl

namespace Records

variable {P : List Token → Scanner σ → Interner → Prop} {s : Scanner σ} {known : Interner}

theorem drain (records : Records P) (given : List Token) (taken : Array Token)
    (init : P (given ++ taken.toList) s known) :
    P (given ++ (s.drain known taken).1.toList) (s.drain known taken).2.1
      (s.drain known taken).2.2 := by
  have push : ∀ (taken : Array Token) (s : Scanner σ) known, P (given ++ taken.toList) s known →
      P (given ++ (taken.push (s.next known).1).toList) (s.next known).2.1
        (s.next known).2.2 := by
    intro taken s known before
    rw [Array.toList_push, ← List.append_assoc]
    exact records _ s known before
  fun_induction Scanner.drain s known taken with
  | case1 s known taken => exact push taken s known init
  | case2 s known taken _ _ _ ih => exact ih (push taken s known init)

theorem pull (records : Records P) (given : List Token) (init : P given s known) (p : Pull) :
    P (given ++ (s.pull known p).1) (s.pull known p).2.1 (s.pull known p).2.2 := by
  cases p with
  | one => exact records given s known init
  | rest =>
      apply records.drain given #[]
      rwa [List.append_nil]

/-- What `next` keeps with the given tokens, a run of pulls keeps. -/
theorem pulls (records : Records P) (given : List Token) (init : P given s known)
    (ps : List Pull) :
    P (given ++ (s.pulls known ps).tokens.flatten) (s.pulls known ps).scanner
      (s.pulls known ps).known := by
  induction ps generalizing given s known with
  | nil =>
      show P (given ++ []) s known
      rwa [List.append_nil]
  | cons p ps ih =>
      rw [pulls_cons]
      dsimp only
      rw [List.flatten_cons, ← List.append_assoc]
      exact ih _ (records.pull given init p)

end Records

/-- Every call of `next` keeps it. -/
def Kept (P : Scanner σ → Interner → Prop) : Prop :=
  ∀ s known, P s known → P (s.next known).2.1 (s.next known).2.2

namespace Kept

variable {P : Scanner σ → Interner → Prop} {s : Scanner σ} {known : Interner}

theorem records (kept : Kept P) : Records fun _ => P :=
  fun _ => kept

theorem drain (kept : Kept P) (init : P s known) (taken : Array Token) :
    P (s.drain known taken).2.1 (s.drain known taken).2.2 :=
  kept.records.drain [] taken init

theorem pull (kept : Kept P) (init : P s known) (p : Pull) :
    P (s.pull known p).2.1 (s.pull known p).2.2 :=
  kept.records.pull [] init p

/-- What `next` keeps, a whole run of pulls keeps. -/
theorem pulls (kept : Kept P) (init : P s known) (ps : List Pull) :
    P (s.pulls known ps).scanner (s.pulls known ps).known :=
  kept.records.pulls [] init ps

end Kept

/-- What holds of a reporter after every report of an error holds of it after every call. -/
theorem kept_reporter {P : Reporter σ → Prop}
    (step : ∀ r position (e : LexicalError), P r → P (r.report position e.message)) :
    Kept fun s _ => P s.reporter := by
  intro s known before
  unfold next note
  dsimp only
  split
  · exact before
  · split
    · exact step _ _ _ before
    · exact before

theorem kept_source (source : Source) :
    Kept fun (s : Scanner σ) _ => s.reporter.source = source :=
  kept_reporter (P := fun r => r.source = source) fun _ _ _ same => same

end Scanner

/-! ## Another sink -/

/-- The map takes what one sink becomes to what the other becomes, when diagnostics of the
source are emitted and when the sinks are flushed. -/
structure Sink.Carries {σ τ : Type} [Sink σ] [Sink τ] (source : Source) (f : σ → τ) : Prop where
  emit : ∀ d sink, f (Sink.emit source d sink) = Sink.emit source d (f sink)
  flush : ∀ sink, f (Sink.flush sink) = Sink.flush (f sink)

section MapSink

variable {σ τ : Type}

def Reporter.mapSink (f : σ → τ) (r : Reporter σ) : Reporter τ :=
  ⟨r.source, f r.sink, r.count⟩

namespace Scanner

def mapSink (f : σ → τ) (s : Scanner σ) : Scanner τ :=
  ⟨s.head, s.reporter.mapSink f⟩

variable [Sink σ] [Sink τ] {f : σ → τ}

theorem note_mapSink {r : Reporter σ} (carries : Sink.Carries r.source f) (position : Position)
    (error : Option LexicalError) :
    note (r.mapSink f) position error = (note r position error).mapSink f := by
  cases error with
  | none => rfl
  | some e =>
      simp only [note, Reporter.report, Reporter.mapSink]
      rw [carries.emit]

theorem next_mapSink {s : Scanner σ} (carries : Sink.Carries s.reporter.source f)
    (known : Interner) :
    (s.mapSink f).next known =
      ((s.next known).1, (s.next known).2.1.mapSink f, (s.next known).2.2) := by
  have noted := note_mapSink carries s.head.skipTrivia.position
    s.head.skipTrivia.cursor.read.error
  by_cases ended : s.head.skipTrivia.cursor.atEnd = true
  · simp [next, mapSink, ended]
  · simp [next, mapSink, ended, noted]

theorem drain_mapSink {s : Scanner σ} (carries : Sink.Carries s.reporter.source f)
    (known : Interner) (taken : Array Token) :
    (s.mapSink f).drain known taken = ((s.drain known taken).1,
      (s.drain known taken).2.1.mapSink f, (s.drain known taken).2.2) := by
  fun_induction drain s known taken with
  | case1 s known taken result pushed ended =>
      rw [drain]
      simp only [next_mapSink carries]
      exact if_pos ended
  | case2 s known taken result pushed goesOn ih =>
      rw [drain]
      simp only [next_mapSink carries]
      rw [if_neg goesOn]
      apply ih
      rwa [kept_source _ s known rfl]

theorem pull_mapSink {s : Scanner σ} (carries : Sink.Carries s.reporter.source f)
    (known : Interner) (p : Pull) :
    (s.mapSink f).pull known p =
      ((s.pull known p).1, (s.pull known p).2.1.mapSink f, (s.pull known p).2.2) := by
  cases p with
  | one => simp only [pull, next_mapSink carries]
  | rest => simp only [pull, all, drain_mapSink carries]

/-- A run over one sink is the run over the other. -/
theorem pulls_mapSink {s : Scanner σ} (carries : Sink.Carries s.reporter.source f)
    (known : Interner) (ps : List Pull) :
    (s.mapSink f).pulls known ps = ⟨(s.pulls known ps).tokens,
      (s.pulls known ps).scanner.mapSink f, (s.pulls known ps).known⟩ := by
  induction ps generalizing s known with
  | nil => rfl
  | cons p ps ih =>
      rw [pulls, pulls, pull_mapSink carries]
      dsimp only
      rw [ih]
      rwa [(kept_source _).pull rfl]

end Scanner

end MapSink

end Lexis
