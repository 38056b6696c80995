/-
# Lexis.Proofs.ReadBack -- what is written about diagnostics can be read back

Without colours a diagnostic is three lines: its heading, the line of the source and the
caret under it (`Diagnostic.rows`).  None of them can break, as no line of a source holds
a line feed, wherever the offset is, and a caret line is blanks and a caret.  So what is
written about many diagnostics is framed, three lines for each (`framed_flatMap_render`),
and a framed text has its lines in one way.

A heading is read from the left: the name is known, and the line and the column end where
their digits do.  What is left is the message, whatever digits and colons it has
(`heading_inj`).  So the headings alone tell what the diagnostics show
(`map_shown_of_rows`).

The messages must be one line each.  Those of the scanner are, since a byte that starts no
token is shown in its escaped form (`Scanner.oneLine_of_reported`).
-/
import Lexis.Proofs.Lines
import Lexis.Proofs.PlainText
import Lexis.Proofs.Replaying

namespace Lexis

set_option autoImplicit false

/-! ## One diagnostic -/

namespace Diagnostic

variable {d e : Diagnostic} {source : Source}

/-- The message does not break its line. -/
def OneLine (d : Diagnostic) : Prop :=
  '\n' ∉ d.message.toList

instance (d : Diagnostic) : Decidable d.OneLine :=
  inferInstanceAs (Decidable ('\n' ∉ d.message.toList))

/-- What a reader is told: the line, the column and the message. -/
def shown (d : Diagnostic) : Nat × Nat × String :=
  (d.position.line, d.position.column, d.message)

/-- The first line, without its line feed. -/
def heading (d : Diagnostic) (source : Source) : String :=
  d.place source ++ " " ++ d.message

/-- The heading, the line of the source and the caret under it. -/
def rows (source : Source) (d : Diagnostic) : List (List UInt8) :=
  [Utf8.encode (d.heading source), source.lineAt d.position.offset,
    Line.marker (source.lineAt d.position.offset) d.position.column]

@[simp] theorem length_rows (source : Source) (d : Diagnostic) : (d.rows source).length = 3 := rfl

theorem oneLine_heading (oneName : '\n' ∉ source.name.toList) (oneLine : d.OneLine) :
    '\n' ∉ (d.heading source).toList := by
  have place := (Plain.position d.position).oneLine
  have message : '\n' ∉ d.message.toList := oneLine
  simp [heading, Diagnostic.place, oneName, place, message]

/-- Without colours a diagnostic is written as its rows. -/
theorem framed_render (oneName : '\n' ∉ source.name.toList) (oneLine : d.OneLine) :
    Framed (d.rows source) (d.render false source) := by
  have marker : Byte.lineFeed ∉
      Line.marker (source.lineAt d.position.offset) d.position.column :=
    fun member => absurd (Line.mem_marker member) (by decide)
  have parts := (Framed.encode (oneLine_heading oneName oneLine)).append
    ((Framed.single (source.lineFeed_notMem_lineAt d.position.offset)).append (.single marker))
  have written : d.render false source =
      Utf8.encode (d.heading source ++ "\n") ++
        (source.lineAt d.position.offset ++ [Byte.lineFeed] ++
          (Line.marker (source.lineAt d.position.offset) d.position.column ++
            [Byte.lineFeed])) := by
    simp [render, Style.paint, heading, Utf8.encode_append]
  rw [written]
  exact parts

/-- A heading tells the line, the column and the message. -/
theorem heading_inj (same : d.heading source = e.heading source) : d.shown = e.shown := by
  have chars := congrArg String.toList same
  simp only [heading, Diagnostic.place, String.toList_append, List.append_assoc,
    List.append_cancel_left_eq] at chars
  obtain ⟨sameLine, sameColumn, behind⟩ :=
    Position.text_append_inj (stops_of_colon _) (stops_of_colon _) chars
  have message := List.append_cancel_left (List.append_cancel_left behind)
  simp only [shown, sameLine, sameColumn, String.toList_inj.mp message]

/-! ## Many diagnostics -/

variable {ds es : List Diagnostic}

/-- The lines about the diagnostics, three for each and in their order. -/
structure Rows (source : Source) (ds : List Diagnostic) (lines : List (List UInt8)) : Prop where
  length_eq : lines.length = 3 * ds.length
  heading : ∀ {i d}, ds[i]? = some d → lines[3 * i]? = some (Utf8.encode (d.heading source))
  line : ∀ {i d}, ds[i]? = some d → lines[3 * i + 1]? = some (source.lineAt d.position.offset)
  marker : ∀ {i d}, ds[i]? = some d → lines[3 * i + 2]? =
    some (Line.marker (source.lineAt d.position.offset) d.position.column)

theorem getElem?_flatMap_rows {i k : Nat} (row : k < 3) (here : ds[i]? = some d) :
    (ds.flatMap (rows source))[3 * i + k]? = (d.rows source)[k]? := by
  induction ds generalizing i with
  | nil => exact absurd here (by simp)
  | cons first ds ih =>
      rw [List.flatMap_cons]
      -- The first three lines are about the first diagnostic; behind them the rest counts anew.
      cases i with
      | zero =>
          cases here
          rw [List.getElem?_append_left (by rw [length_rows]; omega), Nat.mul_zero, Nat.zero_add]
      | succ i =>
          have behind : 3 * (i + 1) + k - 3 = 3 * i + k := by omega
          rw [List.getElem?_append_right (by rw [length_rows]; omega), length_rows, behind]
          exact ih here

theorem rows_flatMap (source : Source) (ds : List Diagnostic) :
    Rows source ds (ds.flatMap (rows source)) where
  length_eq := by
    simp [List.length_flatMap, Nat.mul_comm]
  heading here := getElem?_flatMap_rows (k := 0) (by decide) here
  line here := getElem?_flatMap_rows (k := 1) (by decide) here
  marker here := getElem?_flatMap_rows (k := 2) (by decide) here

theorem framed_flatMap_render (oneName : '\n' ∉ source.name.toList)
    (oneLine : ∀ d ∈ ds, d.OneLine) :
    Framed (ds.flatMap (rows source)) (ds.flatMap fun d => d.render false source) :=
  .flatMap fun d member => framed_render oneName (oneLine d member)

/-- Every third line is a heading, and the headings tell what is shown. -/
theorem map_shown_of_rows (same : ds.flatMap (rows source) = es.flatMap (rows source)) :
    ds.map shown = es.map shown := by
  induction ds generalizing es with
  | nil =>
      cases es with
      | nil => rfl
      | cons e es => exact absurd same (by simp [rows])
  | cons d ds ih =>
      cases es with
      | nil => exact absurd same (by simp [rows])
      | cons e es =>
          rw [List.flatMap_cons, List.flatMap_cons] at same
          obtain ⟨here, later⟩ := List.append_inj same rfl
          have heading := Utf8.encode_injective (List.cons.inj here).1
          rw [List.map_cons, List.map_cons, heading_inj heading, ih later]

end Diagnostic

/-! ## What is reported -/

namespace Scanner

/-- The diagnostics that a run of pulls reports. -/
def reported (source : Source) (known : Interner) (ps : List Pull) : List Diagnostic :=
  ((ofSource source Backlog.empty).pulls known ps).scanner.reporter.sink.toList

theorem oneLine_of_reported (source : Source) (known : Interner) (ps : List Pull) :
    ∀ d ∈ reported source known ps, d.OneLine := by
  have keeps (r : Reporter Backlog) (position : Position) (e : LexicalError)
      (before : ∀ d ∈ r.sink.toList, d.OneLine) :
      ∀ d ∈ (r.report position e.message).sink.toList, d.OneLine := by
    intro d member
    rw [Reporter.report, Backlog.toList_emit] at member
    rcases List.mem_append.mp member with old | new
    · exact before d old
    · rw [List.mem_singleton.mp new]
      exact e.plain_message.oneLine
  have nothing : ∀ d ∈ (ofSource source Backlog.empty).reporter.sink.toList, d.OneLine :=
    fun d member => absurd member List.not_mem_nil
  exact (kept_reporter keeps).pulls nothing ps

/-- A terminal is given what is reported, in order. -/
theorem sink_pulls (source : Source) (t : Terminal) (known : Interner) (ps : List Pull) :
    ((ofSource source t).pulls known ps).scanner.reporter.sink =
      Sink.emitAll source (reported source known ps) t := by
  rw [pulls_replay]
  rfl

end Scanner

/-- **What is written about diagnostics can be read back.**  On a terminal without colours,
where the name of the source and the messages are on one line, any diagnostics, wherever
they point, are three lines each; and what is written tells the line, the column and the
message of each.  All that a scanner reports is of this kind, for every source. -/
theorem Source.written_readBack (source : Source) :
    ('\n' ∉ source.name.toList → ∀ t : Terminal, t.colors = false →
      ∀ ds : List Diagnostic, (∀ d ∈ ds, d.OneLine) →
        (∃ lines written, (Sink.emitAll source ds t).output = t.output ++ written ∧
          Framed lines written ∧ Diagnostic.Rows source ds lines) ∧
        ∀ es : List Diagnostic, (∀ e ∈ es, e.OneLine) →
          (Sink.emitAll source ds t).output = (Sink.emitAll source es t).output →
            ds.map Diagnostic.shown = es.map Diagnostic.shown) ∧
    ∀ (known : Interner) (ps : List Scanner.Pull),
      (∀ d ∈ Scanner.reported source known ps, d.OneLine) ∧
      ∀ t : Terminal, ((Scanner.ofSource source t).pulls known ps).scanner.reporter.sink =
        Sink.emitAll source (Scanner.reported source known ps) t := by
  constructor
  · intro oneName t plain ds oneLine
    have framed := Diagnostic.framed_flatMap_render oneName oneLine
    constructor
    · refine ⟨_, _, ?_, framed, Diagnostic.rows_flatMap source ds⟩
      rw [Terminal.output_emitAll, plain]
    · intro es oneLine' same
      rw [Terminal.output_emitAll, Terminal.output_emitAll, plain] at same
      rw [List.append_cancel_left same] at framed
      have lines := framed.unique (Diagnostic.framed_flatMap_render oneName oneLine')
      exact Diagnostic.map_shown_of_rows lines
  · intro known ps
    exact ⟨Scanner.oneLine_of_reported source known ps,
      fun t => Scanner.sink_pulls source t known ps⟩

/-- A name and a message with digits and colons, a place past the end of the source, and
offsets that differ on their lines: what is written is the same. -/
theorem Source.written_readBack_colons :
    let source := Source.padded "a:1" [0x3F, 0x0A, 0x09, 0x22] (by decide)
    let t := Terminal.blank (ColorChoice.auto.colored false)
    let ds : List Diagnostic := [⟨⟨1, 1, 0⟩, "unknown token '?'"⟩, ⟨⟨9, 12, 99⟩, "3: 4: far"⟩]
    let es : List Diagnostic := [⟨⟨1, 1, 1⟩, "unknown token '?'"⟩, ⟨⟨9, 12, 3⟩, "3: 4: far"⟩]
    '\n' ∉ source.name.toList ∧ t.colors = false ∧ (∀ d ∈ ds, d.OneLine) ∧
      (∀ e ∈ es, e.OneLine) ∧
      (Sink.emitAll source ds t).output = (Sink.emitAll source es t).output ∧
      (∃ lines written, (Sink.emitAll source ds t).output = t.output ++ written ∧
        Framed lines written ∧ Diagnostic.Rows source ds lines) ∧
      ds.map Diagnostic.shown = es.map Diagnostic.shown := by
  intro source t ds es
  have oneName : '\n' ∉ source.name.toList := by decide
  have oneLine : ∀ d ∈ ds, d.OneLine := by decide
  have oneLine' : ∀ e ∈ es, e.OneLine := by decide
  have same : (Sink.emitAll source ds t).output = (Sink.emitAll source es t).output := by
    decide +kernel
  obtain ⟨written, told⟩ := source.written_readBack.1 oneName t rfl ds oneLine
  exact ⟨oneName, rfl, oneLine, oneLine', same, written, told es oneLine' same⟩

end Lexis
