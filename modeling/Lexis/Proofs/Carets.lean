/-
# Lexis.Proofs.Carets -- the caret stands below the byte that is reported

A diagnostic knows a column that was kept while scanning, and an offset.  The line under
the message is found again from the offset alone, loses its carriage return, and is
followed by blanks and a caret.  `PointsAt` says that all this fits: the caret stands
below the byte at the offset, in bytes and on a screen with tabs of any width.

It holds of a diagnostic at any byte that ends no line (`pointsAt_of_split`).  An error is
reported at the first byte of a token (`head?_of_error`), which is such a byte, so every
report of every run points at its byte (`reports_point`).
-/
import Lexis.Proofs.Lines
import Lexis.Proofs.Pulls
import Lexis.Terminal

namespace Lexis

set_option autoImplicit false

/-- The caret of a diagnostic stands below the byte `b`, the one at its offset. -/
structure Diagnostic.PointsAt (d : Diagnostic) (source : Source) (b : UInt8) : Prop where
  /-- What is written ends with the line and, under it, the caret line. -/
  written : ∀ colors, ∃ header, d.render colors source =
    header ++ source.lineAt d.position.offset ++ [Byte.lineFeed] ++
      Style.marker.paint colors
        (Line.marker (source.lineAt d.position.offset) d.position.column) ++ [Byte.lineFeed]
  here : source.bytes[d.position.offset]? = some b
  column_pos : 1 ≤ d.position.column
  column_le : d.position.column ≤ (source.lineAt d.position.offset).length
  shown : (source.lineAt d.position.offset)[d.position.column - 1]? = some b
  oneLine : Byte.lineFeed ∉ source.lineAt d.position.offset
  marked : ∃ blanks,
    Line.marker (source.lineAt d.position.offset) d.position.column = blanks ++ [Byte.caret] ∧
      blanks.length + 1 = d.position.column ∧
      (∀ x ∈ blanks, x = Byte.space ∨ x = Byte.tab) ∧
      ∀ width, Line.screenColumn width blanks = Line.screenColumn width
        ((source.lineAt d.position.offset).take (d.position.column - 1))

/-! ## A byte of a line -/

theorem Line.marker_below {line : List UInt8} {column : Nat} (positive : 1 ≤ column)
    (inside : column ≤ line.length) :
    ∃ blanks, marker line column = blanks ++ [Byte.caret] ∧ blanks.length + 1 = column ∧
      (∀ x ∈ blanks, x = Byte.space ∨ x = Byte.tab) ∧
      ∀ width, screenColumn width blanks = screenColumn width (line.take (column - 1)) := by
  refine ⟨_, marker_eq inside, ?_, ?_, fun width => screenColumn_map_blankOf width _⟩
  · rw [List.length_map, List.length_take]
    omega
  · intro x member
    obtain ⟨b, _, rfl⟩ := List.mem_map.mp member
    exact blankOf_eq b

/-- A diagnostic at a byte points at it, unless the byte ends its line. -/
theorem Source.pointsAt_of_split {s : Source} {front ahead : List UInt8} {b : UInt8}
    (split : s.bytes = front ++ b :: ahead) (notFeed : b ≠ Byte.lineFeed)
    (notReturn : b ≠ Byte.carriageReturn) (message : String) :
    Diagnostic.PointsAt ⟨Position.start.stepOverAll front, message⟩ s b := by
  -- The line of the byte: `before` and `after` are on it, `lines` and `back` are not.
  obtain ⟨lines, before, rfl, closed, onLine⟩ := exists_lastLine front
  obtain ⟨after, back, rfl, goesOn, ends⟩ := exists_firstLine ahead
  have place : (Position.start.stepOverAll (lines ++ before)).offset =
      lines.length + before.length := by
    rw [Position.offset_stepOverAll_start, List.length_append]
  have column := closed.column_stepOverAll_append onLine
  have line : s.lineAt (lines.length + before.length) =
      Line.dropReturn (before ++ b :: after) := by
    apply Source.lineAt_eq closed onLine _ ends
    · simpa using split
    · simp [Ne.symm notFeed, goesOn]
  have here : (s.lineAt (lines.length + before.length))[before.length]? = some b := by
    rw [line]
    exact Line.getElem?_dropReturn (by simp) notReturn
  have inside := (List.getElem?_eq_some_iff.mp here).1
  constructor
  case written => exact fun colors => ⟨_, rfl⟩
  case here =>
    rw [Position.offset_stepOverAll_start, split]
    simp
  case column_pos =>
    rw [column]
    omega
  case column_le =>
    rw [place, column]
    exact inside
  case shown =>
    rw [place, column]
    exact here
  case oneLine => exact s.lineFeed_notMem_lineAt _
  case marked =>
    rw [place, column]
    exact Line.marker_below (by omega) inside

/-! ## What is reported -/

/-- The byte that an error is about. -/
def LexicalError.byte : LexicalError → UInt8
  | .unterminatedString => Byte.quote
  | .unterminatedChar => Byte.apostrophe
  | .unknownByte byte => byte

/-- The message tells an error, and the caret points at its byte. -/
def Diagnostic.PointsAtError (d : Diagnostic) (source : Source) : Prop :=
  ∃ e : LexicalError, d.message = e.message ∧ d.PointsAt source e.byte

/-- A lexeme with an error starts with the byte that the error is about. -/
theorem Lexeme.Spelled.head?_of_error {l : Lexeme} {e : LexicalError} {spelling rest : List UInt8}
    (spelled : l.Spelled (some e) spelling rest) : spelling.head? = some e.byte := by
  cases spelled <;> rfl

theorem Byte.ne_of_startsTrivia {b c : UInt8} (starts : startsTrivia c = true)
    (atToken : startsTrivia b = false) : b ≠ c := by
  rintro rfl
  rw [starts] at atToken
  exact Bool.noConfusion atToken

theorem Piece.pointsAtError {source : Source} {front rest : List UInt8} {p : Piece} {d : Diagnostic}
    (split : source.bytes = front ++ (p.gap ++ p.spelling ++ rest))
    (atToken : ∀ b ∈ p.spelling.head?, Byte.startsTrivia b = false)
    (spelled : p.lexeme.Spelled p.error p.spelling rest)
    (reported : p.diagnostic? (Position.start.stepOverAll front) = some d) :
    d.PointsAtError source := by
  obtain ⟨e, isError, rfl⟩ := Option.map_eq_some_iff.mp reported
  rw [isError] at spelled
  have first := spelled.head?_of_error
  have startsToken := atToken e.byte first
  obtain ⟨tail, spelling⟩ := List.head?_eq_some_iff.mp first
  rw [spelling] at split
  have place : p.place (Position.start.stepOverAll front) =
      Position.start.stepOverAll (front ++ p.gap) := (Position.stepOverAll_append _ _ _).symm
  refine ⟨e, rfl, ?_⟩
  rw [place]
  have ahead : source.bytes = front ++ p.gap ++ e.byte :: (tail ++ rest) := by
    simpa using split
  apply Source.pointsAt_of_split ahead
  · exact Byte.ne_of_startsTrivia (by decide) startsToken
  · exact Byte.ne_of_startsTrivia (by decide) startsToken

/-! ## Every run -/

namespace Scanner

/-- The scanner is somewhere in the source, and what it reported points at its bytes. -/
structure Reported (source : Source) (s : Scanner Backlog) : Prop where
  passes : ∃ front, (Head.ofSource source).Passes front s.head
  point : ∀ d ∈ s.reporter.sink.toList, d.PointsAtError source

theorem kept_reported (source : Source) : Kept fun s _ => Reported source s := by
  intro s known reported
  obtain ⟨front, before⟩ := reported.passes
  have can := next_next (before.inStep (Head.inStep_ofSource source)) known
  generalize s.next known = result at can ⊢
  cases can with
  | eof _ passes _ => exact ⟨⟨_, before.trans passes⟩, reported.point⟩
  | @piece p head _ atToken spelled passes =>
      refine ⟨⟨_, before.trans passes⟩, ?_⟩
      intro d member
      rw [Reporter.reportAll, Backlog.toList_emitAll] at member
      rcases List.mem_append.mp member with old | new
      · exact reported.point d old
      · have split : source.bytes = front ++ (p.gap ++ p.spelling ++ head.cursor.rest) := by
          rw [← passes.cursor.rest_eq]
          exact before.cursor.rest_eq
        refine Piece.pointsAtError split atToken spelled ?_
        rw [before.position] at new
        exact Option.mem_toList.mp new

end Scanner

/-- **The caret stands below the byte that is reported**: in every source, for every
diagnostic of every run of pulls, the line that is shown has the byte of the error in the
column of the caret, and tabs of any width move both by the same. -/
theorem Source.reports_point (source : Source) (known : Interner) (ps : List Scanner.Pull) :
    ∀ d ∈ ((Scanner.ofSource source Backlog.empty).pulls known ps).scanner.reporter.sink.toList,
      ∃ e : LexicalError, d.message = e.message ∧ d.PointsAt source e.byte := by
  have start : Scanner.Reported source (Scanner.ofSource source Backlog.empty) :=
    ⟨⟨[], .refl _⟩, by simp [Scanner.ofSource, Reporter.ofSource, Backlog.toList, Backlog.empty]⟩
  exact ((Scanner.kept_reported source).pulls start ps).point

/-- A string that a carriage return ends, behind a tab, and a byte that starts no token,
behind a tab and a letter. -/
theorem Source.reports_point_tabs :
    let source := Source.padded "tabs" [0x09, 0x22, 0x0D, 0x0A, 0x61, 0x09, 0x3F] (by decide)
    let ps : List Scanner.Pull := [.one, .rest]
    let run := (Scanner.ofSource source Backlog.empty).pulls .empty ps
    ⟨⟨1, 2, 1⟩, "unterminated string literal"⟩ ∈ run.scanner.reporter.sink.toList ∧
      ∃ e : LexicalError, "unterminated string literal" = e.message ∧
        Diagnostic.PointsAt ⟨⟨1, 2, 1⟩, "unterminated string literal"⟩ source e.byte := by
  intro source ps run
  have member : ⟨⟨1, 2, 1⟩, "unterminated string literal"⟩ ∈
      run.scanner.reporter.sink.toList := by decide +kernel
  exact ⟨member, source.reports_point .empty ps _ member⟩

end Lexis
