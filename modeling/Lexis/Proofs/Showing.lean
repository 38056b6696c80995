/-
# Lexis.Proofs.Showing -- lines, diagnostics and listings, with every step checked

The line of an offset is found by two searches in slices of the text, and is a slice itself.
A listing asks an interner for the text of each symbol, and fails where the symbol was not
issued.  Each of these steps is checked here where it happens.

At a place that stands between two parts of its line, the checked bounds are those that the
searches byte by byte find (`rawBounds_of_split`).  Every offset stands so, or past the end,
which is the same as at the end.  So every offset has a line (`rawAt_eq`) and every
diagnostic can be shown (`rawRender_eq`).  The symbols of lexed files were issued by the
interner that they share, and releasing its index takes no text away, so every listing
succeeds (`rawReport_eq`).
-/
import Lexis.Proofs.Composition
import Lexis.Proofs.Contracts
import Lexis.Proofs.Lines
import Lexis.Proofs.Replaying

namespace Lexis

set_option autoImplicit false

/-! ## Lines -/

/-- The place of the last byte of the class. -/
def Checked.lastIdx? (inClass : UInt8 → Bool) : List UInt8 → Option Nat
  | [] => none
  | b :: tail =>
      match lastIdx? inClass tail with
      | some i => some (i + 1)
      | none => if inClass b then some 0 else none

namespace Line

/-- The bounds of the line of an offset, by searches in the text before it and behind it. -/
def rawBounds (text : List UInt8) (offset : Nat) : Except Fault (Nat × Nat) := do
  let offset := min offset text.length
  let before ← Checked.slice text.toArray 0 offset
  let behind ← Checked.slice text.toArray offset text.length
  let start := ((Checked.lastIdx? (· == Byte.lineFeed) before).map (· + 1)).getD 0
  let stop := ((behind.findIdx? (· == Byte.lineFeed)).map (offset + ·)).getD text.length
  return (start, stop)

/-- The line of an offset as it is shown. -/
def rawAt (text : List UInt8) (offset : Nat) : Except Fault (List UInt8) := do
  let (start, stop) ← rawBounds text offset
  return dropReturn (← Checked.slice text.toArray start stop)

end Line

namespace Checked

theorem slice_toArray {text : List UInt8} {start stop : Nat} (ordered : start ≤ stop)
    (inside : stop ≤ text.length) :
    slice text.toArray start stop = .ok ((text.take stop).drop start) := by
  rw [slice_eq ordered (by simpa using inside)]
  simp [List.extract_eq_take_drop, List.drop_take]

variable {inClass : UInt8 → Bool} {front back : List UInt8}

theorem slice_front : slice (front ++ back).toArray 0 front.length = .ok front := by
  rw [slice_toArray (Nat.zero_le _) (by simp), List.take_left, List.drop_zero]

theorem slice_back :
    slice (front ++ back).toArray front.length (front ++ back).length = .ok back := by
  rw [slice_toArray (by simp) (Nat.le_refl _), List.take_length, List.drop_left]

theorem lastIdx?_eq_none (noneThere : ∀ b ∈ back, inClass b = false) :
    lastIdx? inClass back = none := by
  induction back with
  | nil => rfl
  | cons b tail ih =>
      obtain ⟨here, later⟩ := List.forall_mem_cons.mp noneThere
      rw [lastIdx?, ih later, here]
      rfl

/-- The last byte of the class, when no byte behind it belongs to the class. -/
theorem lastIdx?_append_cons (inClass : UInt8 → Bool) {b : UInt8} (belongs : inClass b = true)
    (noneThere : ∀ x ∈ back, inClass x = false) :
    lastIdx? inClass (front ++ b :: back) = some front.length := by
  induction front with
  | nil =>
      rw [List.nil_append, lastIdx?, lastIdx?_eq_none noneThere, belongs]
      rfl
  | cons x front ih =>
      rw [List.cons_append, lastIdx?, ih]
      rfl

end Checked

namespace Line

variable {lines before after back : List UInt8}

/-- A line starts after the last line feed before it. -/
theorem start_of_endsLine (closed : EndsLine lines) (onLine : Byte.lineFeed ∉ before) :
    ((Checked.lastIdx? (· == Byte.lineFeed) (lines ++ before)).map (· + 1)).getD 0 =
      lines.length := by
  have noFeed : ∀ b ∈ before, (b == Byte.lineFeed) = false := by
    simpa using bne_lineFeed onLine
  rcases closed with rfl | last
  · rw [List.nil_append, Checked.lastIdx?_eq_none noFeed]
    rfl
  · obtain ⟨init, rfl⟩ := List.getLast?_eq_some_iff.mp last
    rw [List.append_assoc, List.singleton_append,
      Checked.lastIdx?_append_cons (· == Byte.lineFeed) rfl noFeed]
    simp

/-- A line goes up to the next line feed, or to the end of the text. -/
theorem stop_of_atLineEnd (goesOn : Byte.lineFeed ∉ after) (ends : AtLineEnd back) (place : Nat) :
    (((after ++ back).findIdx? (· == Byte.lineFeed)).map (place + ·)).getD
      (place + (after ++ back).length) = place + after.length := by
  have nothing : after.findIdx? (· == Byte.lineFeed) = none := by
    rw [List.findIdx?_eq_none_iff]
    simpa using bne_lineFeed goesOn
  rw [List.findIdx?_append, nothing]
  cases back with
  | nil => simp
  | cons b tail => simp [ends b rfl, List.findIdx?_cons]

theorem rawBounds_min (text : List UInt8) (offset : Nat) :
    rawBounds text (min offset text.length) = rawBounds text offset := by
  unfold rawBounds
  rw [Nat.min_eq_left (Nat.min_le_right offset text.length)]

/-- The checked bounds of a place are what stands on both sides of it up to line feeds. -/
theorem rawBounds_of_split (closed : EndsLine lines) (onLine : Byte.lineFeed ∉ before)
    (goesOn : Byte.lineFeed ∉ after) (ends : AtLineEnd back) :
    rawBounds (lines ++ (before ++ (after ++ back))) (lines.length + before.length) =
      .ok (lines.length, lines.length + (before ++ after).length) := by
  have inside : (lines ++ before).length ≤ (lines ++ before ++ (after ++ back)).length := by simp
  have stop := stop_of_atLineEnd goesOn ends (lines ++ before).length
  rw [← List.length_append] at stop
  rw [← List.append_assoc, ← List.length_append]
  unfold rawBounds
  dsimp only
  rw [Nat.min_eq_left inside, Checked.slice_front, Checked.ok_bind, Checked.slice_back,
    Checked.ok_bind, start_of_endsLine closed onLine, stop]
  simp [Nat.add_assoc]

end Line

namespace Source

variable (s : Source)

/-- The text as a slice of the buffer. -/
def rawText : Except Fault (List UInt8) :=
  Checked.slice s.buffer 0 s.length

theorem rawText_eq : s.rawText = .ok s.bytes :=
  Checked.slice_eq (Nat.zero_le _) (Nat.le_of_lt s.length_lt_size)

/-- The checked bounds are found for every offset, also past the end. -/
theorem rawBounds_eq (offset : Nat) :
    Line.rawBounds s.bytes offset = .ok (s.lineBounds offset) := by
  obtain ⟨lines, before, after, back, split, place, closed, onLine, goesOn, ends⟩ :=
    s.exists_split (Nat.min_le_right offset s.length)
  rw [← s.lineBounds_min, ← Line.rawBounds_min, s.length_bytes, place,
    lineBounds_eq closed onLine goesOn ends split, split]
  exact Line.rawBounds_of_split closed onLine goesOn ends

/-- Every offset has a line to show. -/
theorem rawAt_eq (offset : Nat) :
    Line.rawAt s.bytes offset = .ok (s.lineAt offset) := by
  have start := s.lineStart_le (min offset s.length)
  have stop := s.le_lineEnd (Nat.min_le_right offset s.length)
  have inside : (s.lineBounds offset).2 ≤ s.length := s.lineEnd_le (Nat.min_le_right _ _)
  have sliced : Checked.slice s.bytes.toArray (s.lineBounds offset).1 (s.lineBounds offset).2 =
      .ok (s.slice (s.lineBounds offset).1 (s.lineBounds offset).2) := by
    have ordered : (s.lineBounds offset).1 ≤ (s.lineBounds offset).2 := Nat.le_trans start stop
    rw [Checked.slice_toArray ordered (by rw [length_bytes]; exact inside), s.slice_eq inside]
  rw [Line.rawAt, s.rawBounds_eq, Checked.ok_bind]
  dsimp only
  rw [sliced]
  rfl

end Source

/-! ## Writing -/

namespace Checked

/-- Bytes for each of a list, one after another. -/
def each {α : Type} (write : α → Except Fault (List UInt8)) : List α → Except Fault (List UInt8)
  | [] => .ok []
  | a :: rest => do
      let here ← write a
      let later ← each write rest
      return here ++ later

theorem each_eq {α : Type} {write : α → Except Fault (List UInt8)} {bytes : α → List UInt8}
    {l : List α} (all : ∀ a ∈ l, write a = .ok (bytes a)) :
    each write l = .ok (l.flatMap bytes) := by
  induction l with
  | nil => rfl
  | cons a rest ih =>
      obtain ⟨here, later⟩ := List.forall_mem_cons.mp all
      rw [each, here, ih later]
      rfl

/-- The text of a symbol that must have been issued. -/
def resolve (names : Interner) (symbol : Symbol) : Except Fault String :=
  (names.resolve symbol).mapError .names

end Checked

def Diagnostic.rawRender (d : Diagnostic) (colors : Bool) (source : Source) :
    Except Fault (List UInt8) := do
  let text ← source.rawText
  let line ← Line.rawAt text d.position.offset
  return Style.place.paint colors (Utf8.encode (d.place source)) ++
    Utf8.encode (" " ++ d.message ++ "\n") ++
    line ++ [Byte.lineFeed] ++
    Style.marker.paint colors (Line.marker line d.position.column) ++ [Byte.lineFeed]

/-- Every diagnostic can be shown, wherever it points. -/
theorem Diagnostic.rawRender_eq (d : Diagnostic) (colors : Bool) (source : Source) :
    d.rawRender colors source = .ok (d.render colors source) := by
  rw [rawRender, source.rawText_eq, Checked.ok_bind, source.rawAt_eq]
  rfl

namespace RawToken

/-- What a token carries, in parentheses. -/
def shown (names : Interner) (t : RawToken) : Except Fault String :=
  match t.payload with
  | .none => .ok ""
  | .literal text => .ok ("(" ++ text.quoted ++ ")")
  | .symbol symbol => do
      let text ← Checked.resolve names symbol
      return "(" ++ text ++ ")"

def line (names : Interner) (t : RawToken) : Except Fault (List UInt8) := do
  let shown ← t.shown names
  return Utf8.encode ("  " ++ t.kind.label ++ shown ++ " @ " ++ t.position.text ++ "\n")

end RawToken

def Listing.rawRender (names : Interner) (source : Source) (tokens : List Token) :
    Except Fault (List UInt8) := do
  let lines ← Checked.each (fun t => t.raw.line names) tokens
  return Utf8.encode (header source tokens) ++ lines

/-- The symbol of a token, if it has one, was issued. -/
def Token.Issued (names : Interner) (t : Token) : Prop :=
  ∀ symbol, t.content = .identifier symbol → ∃ text, names.resolve? symbol = some text

theorem Token.Agrees.issued {n m : Interner} {t u : Token} (agrees : t.Agrees n m u) :
    t.Issued n := by
  intro symbol carries
  have content := agrees.content
  rw [carries] at content
  generalize u.content = other at content
  cases content with
  | identifier here _ => exact ⟨_, here⟩
  | plain noSymbol => exact absurd rfl noSymbol

theorem Token.raw_line {names : Interner} {t : Token} (issued : t.Issued names) :
    t.raw.line names = .ok (Utf8.encode (Listing.line names t)) := by
  have shown : t.raw.shown names = .ok (Listing.payload names t) := by
    obtain ⟨content, position, length⟩ := t
    cases content with
    | identifier symbol =>
        obtain ⟨text, resolves⟩ := issued symbol rfl
        have answer : names.resolve symbol = .ok text := by simp [Interner.resolve, resolves]
        have found : names.text symbol = text := by simp [Interner.text, resolves]
        show (Checked.resolve names symbol >>= fun text => pure ("(" ++ text ++ ")")) =
          .ok ("(" ++ names.text symbol ++ ")")
        rw [Checked.resolve, answer, found]
        rfl
    | _ => rfl
  rw [RawToken.line, shown]
  rfl

theorem Listing.rawRender_eq {names : Interner} {tokens : List Token}
    (issued : ∀ t ∈ tokens, t.Issued names) (source : Source) :
    rawRender names source tokens = .ok (render names source tokens) := by
  rw [rawRender, Checked.each_eq fun t member => Token.raw_line (issued t member)]
  rfl

namespace Batch

def rawChapter (settings : Settings) (colors : Bool) (names : Interner) (time : Source → String)
    (entry : Entry) : Except Fault (List UInt8) := do
  let diagnostics ← Checked.each (·.rawRender colors entry.source) entry.backlog.toList
  let listing ←
    if settings.listing then Listing.rawRender names entry.source entry.lexed.tokens else .ok []
  return diagnostics ++ listing ++
    (if settings.benchmark then
      Utf8.encode ("info: " ++ entry.source.name ++ ": " ++ time entry.source ++ "\n")
    else [])

def rawReport (settings : Settings) (colors : Bool) (names : Interner) (time : Source → String)
    (entries : List Entry) : Except Fault Outcome := do
  let chapters ← Checked.each (rawChapter settings colors names time) entries
  return ⟨totals entries, chapters ++ Summary.render colors (totals entries).errors⟩

def rawRun (settings : Settings) (files : FileSystem) (isTerminal : Bool)
    (time : Source → String) : Except Fault (Except SourceError Outcome) :=
  match load files settings.files with
  | .error e => .ok (.error e)
  | .ok sources => do
      let (entries, names) := lexAll sources .empty
      return .ok (← rawReport settings (settings.color.colored isTerminal) names.release time
        entries)

variable {known : Interner} {entries : List Entry} {sources : List Source}

theorem rawChapter_eq (settings : Settings) (colors : Bool) (time : Source → String) {entry : Entry}
    (issued : ∀ t ∈ entry.lexed.tokens, t.Issued known) :
    rawChapter settings colors known time entry =
      .ok (chapter settings colors known time entry) := by
  have diagnostics : Checked.each (·.rawRender colors entry.source) entry.backlog.toList =
      .ok (entry.backlog.replay entry.source (Terminal.blank colors)).output := by
    rw [Checked.each_eq fun d _ => d.rawRender_eq colors entry.source, Backlog.output_replay]
    rfl
  rw [rawChapter, diagnostics, Checked.ok_bind, Listing.rawRender_eq issued]
  cases listed : settings.listing with
  | true => simp [chapter, listed]
  | false => simp [chapter, listed]

/-- Letting the index go takes no text away, so the listing of every entry succeeds. -/
theorem rawReport_eq (each : List.Forall₂ (Entry.Of known) entries sources) (settings : Settings)
    (colors : Bool) (time : Source → String) :
    rawReport settings colors known.release time entries =
      .ok (report settings colors known.release time entries) := by
  have chapters : ∀ entry ∈ entries, rawChapter settings colors known.release time entry =
      .ok (chapter settings colors known.release time entry) := by
    intro entry member
    have both := each.imp fun entry source here => And.intro (Exists.intro source here) here
    obtain ⟨source, here⟩ := ((List.forall₂_and_left _ _).mp both).1 entry member
    apply rawChapter_eq
    intro t inTokens symbol carries
    have agree := here.tokens.imp fun t u agrees => And.intro agrees.issued agrees
    exact ((List.forall₂_and_left _ _).mp agree).1 t inTokens symbol carries
  rw [rawReport, Checked.each_eq chapters]
  rfl

theorem rawRun_eq (settings : Settings) (files : FileSystem) (isTerminal : Bool)
    (time : Source → String) :
    rawRun settings files isTerminal time = .ok (run settings files isTerminal time) := by
  unfold rawRun run
  cases load files settings.files with
  | error e => rfl
  | ok sources =>
      dsimp only
      rw [rawReport_eq (lexAll_of sources Interner.sound_empty)]
      rfl

end Batch

end Lexis
