/-
# Lexis.Proofs.Presentation -- settings of presentation change presentation only

Which files are read, what their tokens are and how many errors they have do not depend
on colours, on the listing, on times or on the order in which the files are lexed:
every run on the same files fails alike or covers the same (`Results.map_totals`).

Colours change no byte that is not theirs.  `Style.strip` deletes four control sequences
from a text, which are those that the styles are written with (`Style.codes_eq`).
`Tints colored plain` says that deleting them from one gives the other, whatever comes
behind, and that the other has no escape.  Bytes without an escape tint themselves, a
style tints what it paints, and texts that follow one another tint together; so the claim
for a whole run is put together from its parts (`join_tints`).  No escape comes from the
program itself, since what it writes besides names and lines of the source is plain.
-/
import Lexis.Proofs.Composition
import Lexis.Proofs.Lines
import Lexis.Proofs.Listings
import Lexis.Proofs.Replaying
import Lexis.Proofs.Responses

namespace Lexis

set_option autoImplicit false

/-! ## Deleting control sequences -/

namespace Byte

/-- The byte that starts a control sequence. -/
abbrev escape : UInt8 := 0x1B

end Byte

namespace Style

/-- The control sequences of colours: bold, bold red, bold green, and the end of each. -/
def sequences : List (List UInt8) :=
  [[0x1B, 0x5B, 0x31, 0x6D], [0x1B, 0x5B, 0x31, 0x3B, 0x33, 0x31, 0x6D],
    [0x1B, 0x5B, 0x31, 0x3B, 0x33, 0x32, 0x6D], [0x1B, 0x5B, 0x30, 0x6D]]

/-- Passes `due` bytes and then deletes every one of the control sequences. -/
def stripAfter : Nat → List UInt8 → List UInt8
  | _, [] => []
  | due + 1, _ :: rest => stripAfter due rest
  | 0, b :: rest =>
      match sequences.find? fun code => code.isPrefixOf (b :: rest) with
      | some code => stripAfter (code.length - 1) rest
      | none => b :: stripAfter 0 rest

/-- Deletes every one of the control sequences. -/
def strip (text : List UInt8) : List UInt8 :=
  stripAfter 0 text

/-- What the styles are written with. -/
def codes : List (List UInt8) :=
  [place.code, fault.code, marker.code, reset].map Utf8.encode

theorem codes_eq : codes = sequences := by
  decide

theorem stripAfter_append (passed rest : List UInt8) :
    stripAfter passed.length (passed ++ rest) = strip rest := by
  induction passed with
  | nil => rfl
  | cons b passed ih => exact ih

/-- A control sequence is deleted, wherever it stands. -/
theorem strip_code {code : List UInt8} (listed : code ∈ sequences) (rest : List UInt8) :
    strip (code ++ rest) = strip rest := by
  simp only [sequences, List.mem_cons, List.not_mem_nil, or_false] at listed
  -- No control sequence begins another, so the one that is found is the one that stands there.
  have found : sequences.find? (fun other => other.isPrefixOf (code ++ rest)) = some code := by
    rcases listed with rfl | rfl | rfl | rfl <;> simp [sequences]
  obtain ⟨b, tail, rfl⟩ : ∃ b tail, code = b :: tail := by
    rcases listed with rfl | rfl | rfl | rfl <;> exact ⟨_, _, rfl⟩
  rw [strip, List.cons_append, stripAfter]
  rw [List.cons_append] at found
  rw [found]
  exact stripAfter_append tail rest

/-- A byte that is no escape starts no control sequence. -/
theorem strip_cons {b : UInt8} (noEscape : b ≠ Byte.escape) (rest : List UInt8) :
    strip (b :: rest) = b :: strip rest := by
  have nothing : sequences.find? (fun code => code.isPrefixOf (b :: rest)) = none := by
    simp [sequences, Ne.symm noEscape]
  rw [strip, stripAfter, nothing]
  rfl

theorem code_mem_sequences (style : Style) : Utf8.encode style.code ∈ sequences := by
  rw [← codes_eq]
  cases style <;> simp [codes]

theorem reset_mem_sequences : Utf8.encode reset ∈ sequences := by
  rw [← codes_eq]
  simp [codes]

end Style

/-! ## Coloured and plain -/

/-- Without its control sequences, whatever comes behind, `colored` is `plain`; and `plain`
has none. -/
structure Tints (colored plain : List UInt8) : Prop where
  strip_append : ∀ rest, Style.strip (colored ++ rest) = plain ++ Style.strip rest
  noEscape : Byte.escape ∉ plain

namespace Tints

variable {colored plain colored' plain' : List UInt8}

theorem strip_eq (tints : Tints colored plain) : Style.strip colored = plain := by
  have whole := tints.strip_append []
  rwa [List.append_nil, show Style.strip [] = [] from rfl, List.append_nil] at whole

theorem same (noEscape : Byte.escape ∉ plain) : Tints plain plain := by
  refine ⟨fun rest => ?_, noEscape⟩
  induction plain with
  | nil => rfl
  | cons b plain ih =>
      have first : b ≠ Byte.escape := fun isEscape => noEscape (by simp [isEscape])
      have later : Byte.escape ∉ plain := fun member => noEscape (List.mem_cons_of_mem b member)
      rw [List.cons_append, Style.strip_cons first, ih later, List.cons_append]

theorem append (tints : Tints colored plain) (also : Tints colored' plain') :
    Tints (colored ++ colored') (plain ++ plain') where
  strip_append rest := by
    rw [List.append_assoc, tints.strip_append, also.strip_append, List.append_assoc]
  noEscape member := (List.mem_append.mp member).elim tints.noEscape also.noEscape

theorem flatMap {α : Type} {items : List α} {f g : α → List UInt8}
    (each : ∀ a ∈ items, Tints (f a) (g a)) : Tints (items.flatMap f) (items.flatMap g) := by
  induction items with
  | nil => exact ⟨fun _ => rfl, List.not_mem_nil⟩
  | cons a items ih =>
      obtain ⟨first, later⟩ := List.forall_mem_cons.mp each
      exact first.append (ih later)

theorem paint (style : Style) (noEscape : Byte.escape ∉ plain) :
    Tints (style.paint true plain) (style.paint false plain) where
  strip_append rest := by
    show Style.strip (Utf8.encode style.code ++ plain ++ Utf8.encode Style.reset ++ rest) =
      plain ++ Style.strip rest
    rw [List.append_assoc, List.append_assoc, Style.strip_code style.code_mem_sequences,
      (same noEscape).strip_append, Style.strip_code Style.reset_mem_sequences]
  noEscape := noEscape

end Tints

/-- Neither the name nor the text of the source has an escape. -/
structure Source.NoEscape (s : Source) : Prop where
  name : Byte.escape ∉ Utf8.encode s.name
  text : Byte.escape ∉ s.bytes

namespace Source.NoEscape

variable {s : Source}

theorem lineAt (noEscape : s.NoEscape) (offset : Nat) : Byte.escape ∉ s.lineAt offset := by
  intro member
  have inSlice := (Line.dropReturn_prefix _).subset member
  rw [s.slice_eq (s.lineEnd_le (Nat.min_le_right _ _))] at inSlice
  exact noEscape.text (List.mem_of_mem_take (List.mem_of_mem_drop inSlice))

/-- Colours in a message change nothing else. -/
theorem render_tints (noEscape : s.NoEscape) {d : Diagnostic} (plain : Plain d.message) :
    Tints (d.render true s) (d.render false s) := by
  have newLine : Tints [Byte.lineFeed] [Byte.lineFeed] := .same (by decide)
  have place : Byte.escape ∉ Utf8.encode (d.place s) := by
    have position := (Plain.position d.position).notMem_encode (b := Byte.escape) (by decide)
    simp only [Diagnostic.place, Utf8.encode_append, List.mem_append, not_or]
    exact ⟨⟨⟨noEscape.name, by decide⟩, position⟩, by decide⟩
  have message : Byte.escape ∉ Utf8.encode (" " ++ d.message ++ "\n") := by
    simp only [Utf8.encode_append, List.mem_append, not_or]
    exact ⟨⟨by decide, plain.notMem_encode (by decide)⟩, by decide⟩
  have heading := (Tints.paint .place place).append (.same message)
  have text := (heading.append (.same (noEscape.lineAt d.position.offset))).append newLine
  have marker : Byte.escape ∉ Line.marker (s.lineAt d.position.offset) d.position.column :=
    fun member => absurd (Line.mem_marker member) (by decide)
  exact (text.append (.paint .marker marker)).append newLine

end Source.NoEscape

theorem Summary.render_tints (count : Nat) :
    Tints (Summary.render true count) (Summary.render false count) := by
  unfold Summary.render
  split
  · exact .same List.not_mem_nil
  · have tail : Byte.escape ∉ Utf8.encode (Summary.tail count) := by
      unfold Summary.tail
      split
      · decide
      · have number := (Plain.nat count).notMem_encode (b := Byte.escape) (by decide)
        simp only [Utf8.encode_append, List.mem_append, not_or]
        exact ⟨⟨by decide, number⟩, by decide⟩
    exact (Tints.paint .fault (by decide)).append (.same tail)

theorem Listing.escape_notMem_render {s : Source} (noEscape : s.NoEscape) {known : Interner}
    {tokens : List Token} (worded : ∀ t ∈ tokens, t.Worded known) :
    Byte.escape ∉ render known s tokens := by
  have heading : Byte.escape ∉ Utf8.encode (header s tokens) := by
    have number := (Plain.nat tokens.length).notMem_encode (b := Byte.escape) (by decide)
    simp only [header, Utf8.encode_append, List.mem_append, not_or]
    exact ⟨⟨⟨⟨by decide, noEscape.name⟩, by decide⟩, number⟩, by decide⟩
  intro member
  rcases List.mem_append.mp member with inHeading | inRows
  · exact heading inHeading
  · obtain ⟨t, listed, inLine⟩ := List.mem_flatMap.mp inRows
    rw [line_eq, Utf8.encode_append] at inLine
    rcases List.mem_append.mp inLine with inRow | isEnd
    · exact (plain_row (worded t listed)).notMem_encode (by decide) inRow
    · exact absurd isEnd (by decide)

/-! ## Whole runs -/

/-- Every diagnostic of a cut is about an error. -/
theorem Piece.exists_error {pieces : List Piece} {start : Position} {d : Diagnostic}
    (member : d ∈ diagnostics start pieces) : ∃ e : LexicalError, d.message = e.message := by
  induction pieces generalizing start with
  | nil => exact absurd member List.not_mem_nil
  | cons p pieces ih =>
      rcases List.mem_append.mp member with here | later
      · obtain ⟨e, _, rfl⟩ := Option.map_eq_some_iff.mp (Option.mem_toList.mp here)
        exact ⟨e, rfl⟩
      · exact ih later

/-- No name has an escape, and no file under it. -/
structure FileSystem.NoEscape (files : FileSystem) (names : List String) : Prop where
  name : ∀ name ∈ names, Byte.escape ∉ Utf8.encode name
  content : ∀ name ∈ names, ∀ text, files name = .ok text → Byte.escape ∉ text

theorem Source.text_of_read {files : FileSystem} {name : String} {s : Source}
    (reads : read files name = .ok s) : files name = .ok s.bytes := by
  unfold read ofBytes at reads
  split at reads
  · split at reads
    · cases reads
      simpa using ‹files name = _›
    · cases reads
  · cases reads

namespace FileSystem

variable {files : FileSystem} {names : List String} {sources : List Source}

theorem hold_of_load (loaded : Batch.load files names = .ok sources) :
    files.Hold names sources := by
  rcases files.hold_or_firstUnreadable names with ⟨others, hold⟩ | ⟨e, first⟩
  · rw [hold.load_eq] at loaded
    exact Except.ok.inj loaded ▸ hold
  · rw [first.load_eq] at loaded
    cases loaded

theorem NoEscape.of_hold (hold : files.Hold names sources) (noEscape : files.NoEscape names) :
    ∀ s ∈ sources, s.NoEscape := by
  induction hold with
  | nil => exact fun s member => absurd member List.not_mem_nil
  | @cons name s names sources read _ ih =>
      obtain ⟨noName, noNames⟩ := List.forall_mem_cons.mp noEscape.name
      obtain ⟨noContent, noContents⟩ := List.forall_mem_cons.mp noEscape.content
      refine List.forall_mem_cons.mpr ⟨⟨?_, ?_⟩, ih ⟨noNames, noContents⟩⟩
      · rwa [Source.name_of_read read]
      · exact noContent _ (Source.text_of_read read)

end FileSystem

namespace Batch

variable {settings settings' : Settings} {files : FileSystem} {isTerminal isTerminal' : Bool}
  {time time' : Source → String}

/-- What a run can give: the files are lexed in the order of the settings, or by readers
that take turns where the settings leave the order open. -/
inductive Results (settings : Settings) (files : FileSystem) (isTerminal : Bool)
    (time : Source → String) : Except SourceError Outcome → Prop
  | inOrder : Results settings files isTerminal time (run settings files isTerminal time)
  | byTurns {o : Outcome} (isParallel : settings.parallel = true)
      (turns : ByTurns settings files isTerminal time o) :
      Results settings files isTerminal time (.ok o)

/-- Whether a run fails, and what it covers, is up to the files alone. -/
theorem Results.map_totals {r : Except SourceError Outcome}
    (results : Results settings files isTerminal time r) :
    r.map Outcome.totals = (load files settings.files).map fun sources =>
      (Outcome.join false (sources.map (single {} false))).totals := by
  cases results with
  | inOrder =>
      unfold run
      cases load files settings.files with
      | error e => rfl
      | ok sources =>
          exact congrArg Except.ok
            (totals_eq_join (lexAll_of sources Interner.sound_empty) {} false)
  | byTurns _ turns =>
      cases turns with
      | @intro sources loaded turns finished =>
          have follow := Sharing.follow_after sources Interner.sound_empty turns
          rw [loaded]
          exact congrArg Except.ok (totals_eq_join (follow.entries_of finished) {} false)

/-- When times are not told, a run joins what runs on the single files give. -/
theorem Results.eq_join {o : Outcome} (results : Results settings files isTerminal time (.ok o))
    (untimed : settings.benchmark = false) :
    ∃ sources, load files settings.files = .ok sources ∧
      o = Outcome.join (settings.color.colored isTerminal)
        (sources.map (single settings (settings.color.colored isTerminal))) := by
  generalize result : Except.ok o = r at results
  cases results with
  | inOrder =>
      cases loaded : load files settings.files with
      | error e => simp [run, loaded] at result
      | ok sources =>
          rw [run_eq_join settings loaded untimed] at result
          exact ⟨sources, rfl, Except.ok.inj result⟩
  | @byTurns other _ turns =>
      obtain rfl := Except.ok.inj result
      have byTurns := turns
      obtain ⟨loaded, _⟩ := byTurns
      exact ⟨_, loaded, (byTurns_iff settings loaded untimed _ _ _).mp turns⟩

theorem chapter_tints {s : Source} (noEscape : s.NoEscape) (untimed : settings.benchmark = false)
    (untimed' : settings'.benchmark = false) (sameListing : settings.listing = settings'.listing) :
    Tints (chapter settings true (solo s).2.release time (solo s).1)
      (chapter settings' false (solo s).2.release time' (solo s).1) := by
  obtain ⟨pieces, last, cut, run⟩ := s.lex_of_cut Backlog.empty .empty
  have backlog : (solo s).1.backlog.toList = Piece.diagnostics .start pieces := by
    rw [solo, lexOne, run, Backlog.toList_emitAll]
    rfl
  have diagnostics : Tints
      (((solo s).1.backlog.replay s (Terminal.blank true)).output)
      (((solo s).1.backlog.replay s (Terminal.blank false)).output) := by
    rw [Backlog.output_replay, Backlog.output_replay, backlog]
    refine .flatMap fun d member => noEscape.render_tints ?_
    obtain ⟨e, message⟩ := Piece.exists_error member
    rw [message]
    exact e.plain_message
  have listing : Byte.escape ∉ Listing.render (solo s).2.release s (solo s).1.lexed.tokens := by
    let session : Listing.Session Backlog := ⟨s, .empty, [], []⟩
    have worded : ∀ t ∈ (solo s).1.lexed.tokens, t.Worded (solo s).2.release := session.worded
    exact Listing.escape_notMem_render noEscape worded
  simp only [chapter, untimed, untimed', sameListing, Bool.false_eq_true, if_false, List.append_nil]
  refine diagnostics.append ?_
  split
  · exact .same listing
  · exact .same List.not_mem_nil

theorem join_tints {sources : List Source} (noEscape : ∀ s ∈ sources, s.NoEscape)
    (untimed : settings.benchmark = false) (untimed' : settings'.benchmark = false)
    (sameListing : settings.listing = settings'.listing) :
    Tints (Outcome.join true (sources.map (single settings true))).output
      (Outcome.join false (sources.map (single settings' false))).output := by
  have errors : Outcome.sum (fun o => o.totals.errors) (sources.map (single settings true)) =
      Outcome.sum (fun o => o.totals.errors) (sources.map (single settings' false)) := by
    induction sources with
    | nil => rfl
    | cons s sources ih =>
        rw [List.map_cons, List.map_cons, Outcome.sum, Outcome.sum,
          ih (List.forall_mem_cons.mp noEscape).2]
        rfl
  simp only [Outcome.join, errors, List.flatMap_map, body_single]
  refine (Tints.flatMap fun s member => ?_).append (Summary.render_tints _)
  exact chapter_tints (noEscape s member) untimed untimed' sameListing

/-- **Settings of presentation change presentation only.**  Runs on the same files fail
alike or cover the same, whatever else the settings are; and where no name and no file has
an escape, the coloured output without the control sequences of its styles is the plain
output, which has no escape. -/
theorem presentation_only (sameFiles : settings.files = settings'.files)
    {r r' : Except SourceError Outcome} (results : Results settings files isTerminal time r)
    (results' : Results settings' files isTerminal' time' r') :
    r.map Outcome.totals = r'.map Outcome.totals ∧
      (files.NoEscape settings.files → settings.benchmark = false → settings'.benchmark = false →
        settings.listing = settings'.listing → settings.color.colored isTerminal = true →
        settings'.color.colored isTerminal' = false → ∀ o o', r = .ok o → r' = .ok o' →
          Style.strip o.output = o'.output ∧ Byte.escape ∉ o'.output) := by
  constructor
  · rw [results.map_totals, results'.map_totals, sameFiles]
  · rintro noEscape untimed untimed' sameListing colored plain o o' rfl rfl
    obtain ⟨sources, loaded, joined⟩ := results.eq_join untimed
    obtain ⟨sources', loaded', joined'⟩ := results'.eq_join untimed'
    rw [← sameFiles, loaded] at loaded'
    obtain rfl := Except.ok.inj loaded'
    have escapes := noEscape.of_hold (FileSystem.hold_of_load loaded)
    have tints := join_tints escapes untimed untimed' sameListing
    rw [colored] at joined
    rw [plain] at joined'
    rw [← joined, ← joined'] at tints
    exact ⟨tints.strip_eq, tints.noEscape⟩

/-- An unknown byte and a string that is not closed, listed with colours and without. -/
theorem presentation_only_unclosed :
    let files : FileSystem := fun _ => .ok [0x3F, 0x0A, 0x09, 0x22]
    let settings : Settings := { files := ["unclosed"], listing := true, color := .always }
    let settings' : Settings := { files := ["unclosed"], listing := true, parallel := true }
    files.NoEscape settings.files ∧
      ∃ o o', run settings files false (fun _ => "") = .ok o ∧
        run settings' files false (fun _ => "") = .ok o' ∧ o.totals = o'.totals ∧
        Style.strip o.output = o'.output ∧ Byte.escape ∉ o'.output := by
  intro files settings settings'
  have noEscape : files.NoEscape settings.files := by
    constructor
    · decide
    · intro name _ text holds
      cases holds
      decide
  obtain ⟨o, ran⟩ : ∃ o, run settings files false (fun _ => "") = .ok o := ⟨_, rfl⟩
  obtain ⟨o', ran'⟩ : ∃ o', run settings' files false (fun _ => "") = .ok o' := ⟨_, rfl⟩
  have results : Results settings files false (fun _ => "") (.ok o) := ran ▸ .inOrder
  have results' : Results settings' files false (fun _ => "") (.ok o') := ran' ▸ .inOrder
  have sameFiles : settings.files = settings'.files := rfl
  obtain ⟨covered, tinted⟩ := presentation_only sameFiles results results'
  obtain ⟨stripped, plain⟩ := tinted noEscape rfl rfl rfl rfl rfl o o' rfl rfl
  exact ⟨noEscape, o, o', ran, ran', Except.ok.inj covered, stripped, plain⟩

end Batch

end Lexis
