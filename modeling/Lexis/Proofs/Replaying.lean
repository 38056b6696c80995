/-
# Lexis.Proofs.Replaying -- reporting at once, and keeping reports to show them later

A terminal shows a diagnostic when it is emitted; a backlog keeps it, and shows it when it
is replayed.  Emitting into a backlog and then replaying it is emitting at once
(`carries_replay`), and so is lending the backlog to the one who emits (`carries_lent`).
These two maps between sinks are the whole argument: a scanner over a backlog, pulled from
in any way, has the tokens, the names and the place of the scanner over a terminal, and
its backlog replayed is that terminal (`pulls_replay`).

`replay_eq_direct` says so for a backlog that is owned or lent, for every choice of
colours, and also of diagnostics that are emitted without any scanner.
-/
import Lexis.Proofs.Pulls
import Lexis.Terminal

namespace Lexis

set_option autoImplicit false

/-! ## Maps between sinks -/

namespace Sink

variable {σ τ : Type} [Sink σ] [Sink τ] {source : Source} {f : σ → τ}

/-- A call that emits or flushes. -/
def Call.IsReport (c : Call) : Prop :=
  ∀ count, c ≠ .summarize count

def performAll (source : Source) (sink : σ) (calls : List Call) : σ :=
  calls.foldl (perform source) sink

namespace Carries

theorem emitAll (carries : Carries source f) (ds : List Diagnostic) (sink : σ) :
    f (Sink.emitAll source ds sink) = Sink.emitAll source ds (f sink) := by
  induction ds generalizing sink with
  | nil => rfl
  | cons d ds ih => rw [emitAll_cons, emitAll_cons, ih, carries.emit]

theorem perform (carries : Carries source f) {c : Call} (isReport : c.IsReport) (sink : σ) :
    f (Sink.perform source sink c) = Sink.perform source (f sink) c := by
  cases c with
  | emit d => exact carries.emit d sink
  | emitAll ds => exact carries.emitAll ds sink
  | flush => exact carries.flush sink
  | summarize count => exact absurd rfl (isReport count)

theorem performAll (carries : Carries source f) {calls : List Call}
    (reports : ∀ c ∈ calls, c.IsReport) (sink : σ) :
    f (Sink.performAll source sink calls) = Sink.performAll source (f sink) calls := by
  induction calls generalizing sink with
  | nil => rfl
  | cons c calls ih =>
      obtain ⟨here, later⟩ := List.forall_mem_cons.mp reports
      show f (Sink.performAll source (Sink.perform source sink c) calls) = _
      rw [ih later, carries.perform here]
      rfl

end Carries

/-- A lent sink becomes what the sink itself would have become. -/
theorem carries_lent (source : Source) : Carries source (Lent.mk : σ → Lent σ) :=
  ⟨fun _ _ => rfl, fun _ => rfl⟩

/-- What is emitted into a backlog is emitted into the terminal, once it is replayed. -/
theorem carries_replay (source : Source) (blank : Terminal) :
    Carries source fun b : Backlog => b.replay source blank where
  emit d b := by simp [Backlog.replay, Sink.emitAll_append]
  flush _ := rfl

end Sink

/-! ## Scanners over a backlog -/

/-- One run with a terminal and one with a backlog, which is replayed when the run is
over. -/
structure Defers {σ : Type} (source : Source) (blank : Terminal)
    (direct : Scanner.Pulled Terminal) (deferred : Scanner.Pulled σ) (backlog : Backlog) :
    Prop where
  tokens_eq : direct.tokens = deferred.tokens
  known_eq : direct.known = deferred.known
  position_eq : direct.scanner.head.position = deferred.scanner.head.position
  errors_eq : direct.scanner.errors = deferred.scanner.errors
  size_eq : deferred.scanner.errors = backlog.size
  output_eq : (backlog.replay source blank).output = direct.scanner.reporter.sink.output
  /-- A backlog can be replayed again, behind what is written already. -/
  again : (backlog.replay source (backlog.replay source blank)).output =
    (backlog.replay source blank).output ++ (backlog.replay source blank).output

namespace Backlog

theorem output_replay (b : Backlog) (source : Source) (t : Terminal) :
    (b.replay source t).output =
      t.output ++ b.toList.flatMap fun d => d.render t.colors source :=
  Terminal.output_emitAll source b.toList t

@[simp] theorem colors_replay (b : Backlog) (source : Source) (t : Terminal) :
    (b.replay source t).colors = t.colors := by
  unfold replay
  generalize b.toList = ds
  induction ds generalizing t with
  | nil => rfl
  | cons d ds ih => rw [Sink.emitAll_cons, ih, Terminal.colors_emit]

/-- On a terminal with nothing written, two replays write the same twice. -/
theorem output_replay_replay (b : Backlog) (source : Source) (colors : Bool) :
    (b.replay source (b.replay source (Terminal.blank colors))).output =
      (b.replay source (Terminal.blank colors)).output ++
        (b.replay source (Terminal.blank colors)).output := by
  have once : (b.replay source (Terminal.blank colors)).output =
      b.toList.flatMap fun d => d.render colors source := by
    rw [output_replay]
    rfl
  rw [output_replay, colors_replay, once]
  rfl

end Backlog

namespace Scanner

/-- A reporter counts what its backlog keeps. -/
theorem errors_eq_size (source : Source) (known : Interner) (ps : List Pull) :
    ((ofSource source Backlog.empty).pulls known ps).scanner.errors =
      ((ofSource source Backlog.empty).pulls known ps).scanner.reporter.sink.size := by
  have keeps (r : Reporter Backlog) (position : Position) (e : LexicalError)
      (before : r.count = r.sink.size) :
      (r.report position e.message).count = (r.report position e.message).sink.size := by
    simp only [Reporter.report, Sink.emit, Backlog.size, Array.size_push] at before ⊢
    omega
  exact (kept_reporter (P := fun r : Reporter Backlog => r.count = r.sink.size) keeps).pulls rfl ps

/-- The scanner over a terminal is the scanner over a backlog, with the backlog replayed. -/
theorem pulls_replay (source : Source) (blank : Terminal) (known : Interner) (ps : List Pull) :
    (ofSource source blank).pulls known ps =
      ⟨((ofSource source Backlog.empty).pulls known ps).tokens,
        ((ofSource source Backlog.empty).pulls known ps).scanner.mapSink
          fun b => b.replay source blank,
        ((ofSource source Backlog.empty).pulls known ps).known⟩ :=
  pulls_mapSink (s := ofSource source Backlog.empty) (Sink.carries_replay source blank) known ps

theorem pulls_lent (source : Source) (known : Interner) (ps : List Pull) :
    (ofSource source (Lent.mk Backlog.empty)).pulls known ps =
      ⟨((ofSource source Backlog.empty).pulls known ps).tokens,
        ((ofSource source Backlog.empty).pulls known ps).scanner.mapSink Lent.mk,
        ((ofSource source Backlog.empty).pulls known ps).known⟩ :=
  pulls_mapSink (s := ofSource source Backlog.empty) (Sink.carries_lent source) known ps

theorem defers_owned (source : Source) (colors : Bool) (known : Interner) (ps : List Pull) :
    Defers source (Terminal.blank colors)
      ((ofSource source (Terminal.blank colors)).pulls known ps)
      ((ofSource source Backlog.empty).pulls known ps)
      ((ofSource source Backlog.empty).pulls known ps).scanner.reporter.sink := by
  rw [pulls_replay]
  constructor
  · rfl
  · rfl
  · rfl
  · rfl
  · exact errors_eq_size source known ps
  · rfl
  · exact Backlog.output_replay_replay _ source colors

theorem defers_lent (source : Source) (colors : Bool) (known : Interner) (ps : List Pull) :
    Defers source (Terminal.blank colors)
      ((ofSource source (Terminal.blank colors)).pulls known ps)
      ((ofSource source (Lent.mk Backlog.empty)).pulls known ps)
      ((ofSource source (Lent.mk Backlog.empty)).pulls known ps).scanner.reporter.sink.behind := by
  have owned := defers_owned source colors known ps
  rw [pulls_lent]
  exact { owned with }

end Scanner

/-- **Keeping reports and showing them later is showing them at once**: for every source
and every choice of colours, however a scanner is pulled from, whether the backlog is its
own or lent to it; and for any diagnostics that are emitted one by one or many at a time,
with flushes between them. -/
theorem Source.replay_eq_direct (source : Source) (choice : ColorChoice) (isTerminal : Bool)
    (known : Interner) (ps : List Scanner.Pull) (calls : List Sink.Call)
    (reports : ∀ c ∈ calls, c.IsReport) :
    let blank := Terminal.blank (choice.colored isTerminal)
    let direct := (Scanner.ofSource source blank).pulls known ps
    let owned := (Scanner.ofSource source Backlog.empty).pulls known ps
    let lent := (Scanner.ofSource source (Lent.mk Backlog.empty)).pulls known ps
    Defers source blank direct owned owned.scanner.reporter.sink ∧
      Defers source blank direct lent lent.scanner.reporter.sink.behind ∧
      (Sink.performAll source Backlog.empty calls).replay source blank =
        Sink.performAll source blank calls ∧
      (Sink.performAll source (Lent.mk Backlog.empty) calls).behind.replay source blank =
        Sink.performAll source blank calls := by
  intro blank direct owned lent
  have kept := (Sink.carries_replay source blank).performAll reports Backlog.empty
  have behind := (Sink.carries_lent source).performAll reports Backlog.empty
  refine ⟨Scanner.defers_owned _ _ _ _, Scanner.defers_lent _ _ _ _, kept, ?_⟩
  rw [← behind]
  exact kept

/-- Two errors on two lines, pulled in three ways, and calls in which a diagnostic points
past the end of its source. -/
theorem Source.replay_eq_direct_colored :
    let source := Source.padded "two errors" [0x3F, 0x0A, 0x09, 0x22, 0x61] (by decide)
    let blank := Terminal.blank (ColorChoice.auto.colored true)
    let ps : List Scanner.Pull := [.one, .rest, .one]
    let calls : List Sink.Call :=
      [.emitAll [⟨⟨1, 1, 0⟩, "first"⟩, ⟨⟨9, 9, 99⟩, "far"⟩], .flush, .emit ⟨⟨2, 2, 3⟩, "last"⟩]
    let direct := (Scanner.ofSource source blank).pulls .empty ps
    let owned := (Scanner.ofSource source Backlog.empty).pulls .empty ps
    (∀ c ∈ calls, c.IsReport) ∧ owned.scanner.reporter.sink.size = 2 ∧
      (owned.scanner.reporter.sink.replay source blank).output =
        direct.scanner.reporter.sink.output ∧
      (Sink.performAll source Backlog.empty calls).replay source blank =
        Sink.performAll source blank calls := by
  intro source blank ps calls direct owned
  have reports : ∀ c ∈ calls, c.IsReport := by simp [calls, Sink.Call.IsReport]
  obtain ⟨defers, _, kept, _⟩ :=
    source.replay_eq_direct .auto true .empty ps calls reports
  exact ⟨reports, by decide +kernel, defers.output_eq, kept⟩

end Lexis
