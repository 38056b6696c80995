/-
# Lexis.Proofs.Faultless -- nothing that can be reached fails

Lexing, showing diagnostics and listing tokens have steps that fail where something is
not in order: a place in a buffer, a slice, a sum that needs more than 32 bits, a token whose
payload does not fit, a full interner, a symbol that was not issued.  With every such step
checked, each gives what it gives without the checks.

`faultless` says this of every source and every run of pulls, of readers that share an
interner, and of every list of files.
-/
import Lexis.Proofs.Showing

namespace Lexis

set_option autoImplicit false

/-! ## What is checked -/

/-- A scanner at the start of a source whose buffer is checked. -/
def RawScanner.ofSource {σ : Type} (source : Source) (sink : σ) : Except Fault (RawScanner σ) := do
  let cursor ← RawCursor.ofBuffer source.buffer source.length
  return ⟨⟨cursor, .start⟩, .ofSource source sink⟩

/-- A run of pulls in which every step is checked gives what the run itself gives, and each
of its tokens has the payload that its kind carries. -/
structure Scanner.RunChecks {σ : Type} [Sink σ] (source : Source) (sink : σ) (known : Interner)
    (ps : List Pull) : Prop where
  pulls_eq : (RawScanner.ofSource source sink >>= fun s => s.pulls known ps) =
    .ok ((ofSource source sink).pulls known ps).raw
  consistent : ∀ ts ∈ ((ofSource source sink).pulls known ps).raw.1, ∀ t ∈ ts, t.Consistent

/-- Each reader can take one more token, if the names fit then. -/
structure Sharing.ReadersCheck (s : Sharing) : Prop where
  next_eq : ∀ r ∈ s.readers, (r.scanner.next s.known).2.2.Fits →
    r.scanner.raw.next s.known =
      .ok ((r.scanner.next s.known).1.raw, (r.scanner.next s.known).2.1.raw,
        (r.scanner.next s.known).2.2)

/-- Every offset has a line, and every diagnostic can be shown. -/
structure Source.LinesCheck (source : Source) : Prop where
  bounds_eq : ∀ offset, Line.rawBounds source.bytes offset = .ok (source.lineBounds offset)
  line_eq : ∀ offset, Line.rawAt source.bytes offset = .ok (source.lineAt offset)
  render_eq : ∀ (d : Diagnostic) (colors : Bool),
    d.rawRender colors source = .ok (d.render colors source)

/-- What is written about files can be written, in whatever order they were lexed. -/
structure Batch.ReportsCheck (settings : Settings) (files : FileSystem) (isTerminal : Bool)
    (time : Source → String) : Prop where
  run_eq : rawRun settings files isTerminal time = .ok (run settings files isTerminal time)
  byTurns_eq : ∀ sources turns, load files settings.files = .ok sources →
    ((Sharing.start sources .empty).after turns).Finished →
    rawReport settings (settings.color.colored isTerminal)
        ((Sharing.start sources .empty).after turns).known.release time
        (((Sharing.start sources .empty).after turns).entries sources) =
      .ok (report settings (settings.color.colored isTerminal)
        ((Sharing.start sources .empty).after turns).known.release time
        (((Sharing.start sources .empty).after turns).entries sources))

/-! ## All of it succeeds -/

theorem Scanner.runChecks {σ : Type} [Sink σ] {source : Source} (sink : σ) {known : Interner}
    {ps : List Pull} (short : source.length < Source.maxLength) (sound : known.Sound)
    (fits : ((ofSource source sink).pulls known ps).known.Fits) :
    RunChecks source sink known ps := by
  constructor
  · have started : RawScanner.ofSource source sink = .ok (ofSource source sink).raw := by
      rw [RawScanner.ofSource, Cursor.raw_cursor]
      rfl
    rw [started, Checked.ok_bind]
    exact raw_pulls (Head.tracks_ofSource short) sound fits
  · intro ts inRun t inPull
    obtain ⟨tokens, _, rfl⟩ := List.mem_map.mp inRun
    obtain ⟨token, _, rfl⟩ := List.mem_map.mp inPull
    exact token.consistent_raw

theorem Sharing.readersCheck {sources : List Source} {turns : List Turn} {s : Sharing}
    (follow : s.Follow sources turns) (sound : s.known.Sound)
    (short : ∀ source ∈ sources, source.length < Source.maxLength) : s.ReadersCheck := by
  constructor
  intro r member fits
  obtain ⟨i, inside, rfl⟩ := List.mem_iff_getElem.mp member
  have inside' : i < sources.length := follow.size ▸ inside
  obtain ⟨front, passes⟩ := (follow.follows_getElem inside inside').passes
  have start := Head.tracks_ofSource (short _ (List.getElem_mem inside'))
  exact Scanner.raw_next (start.passes passes) sound fits

theorem Source.linesCheck (source : Source) : source.LinesCheck :=
  ⟨source.rawBounds_eq, source.rawAt_eq, fun d colors => d.rawRender_eq colors source⟩

theorem Batch.reportsCheck (settings : Settings) (files : FileSystem) (isTerminal : Bool)
    (time : Source → String) : ReportsCheck settings files isTerminal time := by
  constructor
  · exact rawRun_eq settings files isTerminal time
  · intro sources turns _ finished
    have follow := Sharing.follow_after sources Interner.sound_empty turns
    exact rawReport_eq (follow.entries_of finished) settings _ time

/-- **Nothing that can be reached fails**: in sources that leave room for their columns, no
pull of a scanner and no token of readers that take turns, whatever calls the interner has
before and in between, as long as the symbols fit; in any source, no line and no diagnostic
that is shown; of any files, no symbol in a listing. -/
theorem Source.faultless {σ : Type} [Sink σ] (source : Source) (sink : σ)
    (prior : List Interner.Call) (ps : List Scanner.Pull) (sources : List Source)
    (turns : List Turn) (settings : Settings) (files : FileSystem) (isTerminal : Bool)
    (time : Source → String) :
    let known := Interner.empty.after prior
    (source.length < Source.maxLength →
      ((Scanner.ofSource source sink).pulls known ps).known.Fits →
      Scanner.RunChecks source sink known ps) ∧
    ((∀ s ∈ sources, s.length < Source.maxLength) →
      ((Sharing.start sources known).after turns).ReadersCheck) ∧
    source.LinesCheck ∧ Batch.ReportsCheck settings files isTerminal time := by
  intro known
  have sound : known.Sound := Interner.sound_empty.after prior
  refine ⟨?_, ?_, source.linesCheck, Batch.reportsCheck settings files isTerminal time⟩
  · intro short fits
    exact Scanner.runChecks sink short sound fits
  · intro short
    exact Sharing.readersCheck (Sharing.follow_after sources sound turns)
      (Sharing.sound_after sound turns) short

/-- A string that a carriage return ends, a name that was interned before the index was let
go, and a second source with an unknown byte. -/
theorem Source.faultless_two :
    let one := Source.padded "one" [0x61, 0x09, 0x22, 0x0D, 0x0A, 0x62] (by decide)
    let two := Source.padded "two" [0x3F, 0x61, 0x20, 0x31, 0x2E, 0x35] (by decide)
    let known := Interner.empty.after [.intern "b", .release]
    let ps : List Scanner.Pull := [.one, .rest, .one]
    let turns : List Turn := [.read 0, .read 1, .call .release, .read 1]
    let settings : Settings := { files := ["one"], listing := true }
    let files : FileSystem := fun _ => .ok [0x61, 0x09, 0x22, 0x0D, 0x0A, 0x62]
    one.length < Source.maxLength ∧
      ((Scanner.ofSource one Backlog.empty).pulls known ps).known.Fits ∧
      (∀ s ∈ [one, two], s.length < Source.maxLength) ∧
      Scanner.RunChecks one Backlog.empty known ps ∧
      ((Sharing.start [one, two] known).after turns).ReadersCheck ∧
      Line.rawAt one.bytes 2 = .ok [0x61, 0x09, 0x22] ∧
      Batch.rawRun settings files false (fun _ => "") =
        .ok (Batch.run settings files false fun _ => "") := by
  intro one two known ps turns settings files
  have short : one.length < Source.maxLength := by decide
  have fits : ((Scanner.ofSource one Backlog.empty).pulls known ps).known.Fits := by
    have direct : ∀ c ∈ [Interner.Call.intern "b", .release], c.Direct := by
      simp [Interner.Call.Direct]
    have room : Interner.Room ["b"] := by decide +kernel
    have held : known.size = 1 := (Interner.holds_empty.after direct room).size_eq
    have length : one.length = 6 := rfl
    apply Scanner.fits_pulls
    rw [Symbol.maxId]
    omega
  have shorts : ∀ s ∈ [one, two], s.length < Source.maxLength := by
    simp [one, two, Source.padded, Source.maxLength]
  obtain ⟨run, readers, lines, reports⟩ := one.faultless Backlog.empty [.intern "b", .release] ps
    [one, two] turns settings files false fun _ => ""
  have line : one.lineAt 2 = [0x61, 0x09, 0x22] := by decide +kernel
  refine ⟨short, fits, shorts, run short fits, readers shorts, ?_, reports.run_eq⟩
  rw [lines.line_eq, line]

end Lexis
