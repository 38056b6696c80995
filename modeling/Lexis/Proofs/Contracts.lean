/-
# Lexis.Proofs.Contracts -- the contracts of scanning are kept

A raw head keeps its position up by checked sums and differences of 32-bit numbers.  A raw
token has a kind and a payload side by side, and its constructors check that these fit.  A
raw scanner is made of these, and asks an interner that may be full.

A head tracks when its position keeps up with its cursor and no column is further than the
text is long (`Head.Tracks`).  Then nothing fails: trivia are skipped (`skipTrivia_eq`), and
a call of `next` succeeds with the raw token of the call itself, if the names fit afterwards
(`raw_next`).  So does every run of pulls (`raw_pulls`), since interners only grow
(`Grows.size_le`).  Names fit where there is room for one name of each byte (`fits_pulls`).
-/
import Lexis.Proofs.Checking
import Lexis.Proofs.Pulls

namespace Lexis

set_option autoImplicit false

/-! ## Heads -/

structure RawHead where
  cursor : RawCursor
  position : Position

namespace RawHead

/-- The position follows a cursor that has passed bytes of one line. -/
def sync (h : RawHead) (cursor : RawCursor) : Except Fault RawHead := do
  let passed ← Checked.sub cursor.index h.position.offset
  let column ← Checked.add h.position.column passed
  return ⟨cursor, ⟨h.position.line, column, cursor.index⟩⟩

def feedLine (h : RawHead) : Except Fault RawHead := do
  let cursor ← h.cursor.advance
  let line ← Checked.add h.position.line 1
  let offset ← Checked.add h.position.offset 1
  return ⟨cursor, ⟨line, 1, offset⟩⟩

/-- One line feed, a run of blanks or a comment, or nothing more. -/
def skipOne (h : RawHead) : Except Fault (RawHead ⊕ RawHead) :=
  if h.cursor.current = Byte.lineFeed then return .inl (← h.feedLine)
  else if Byte.isBlank h.cursor.current then
    return .inl (← h.sync (← h.cursor.skipWhile Byte.isBlank))
  else if h.cursor.current = Byte.hash then return .inl (← h.sync (← h.cursor.skipLine))
  else return .inr h

def skipTrivia (h : RawHead) : Except Fault RawHead :=
  Checked.loop (fun h => h.cursor.ahead) skipOne h

end RawHead

/-- The position keeps up with the cursor, and the numbers in it with the bytes passed, in a
text that leaves room for them. -/
structure Head.Tracks (h : Head) : Prop where
  inStep : h.InStep
  line_le : h.position.line ≤ h.position.offset + 1
  column_le : h.position.column ≤ h.position.offset + 1
  short : h.cursor.source.length < Source.maxLength

theorem Position.stepOverAll_le {p : Position} (bytes : List UInt8)
    (line_le : p.line ≤ p.offset + 1) (column_le : p.column ≤ p.offset + 1) :
    (p.stepOverAll bytes).line ≤ (p.stepOverAll bytes).offset + 1 ∧
      (p.stepOverAll bytes).column ≤ (p.stepOverAll bytes).offset + 1 := by
  induction bytes generalizing p with
  | nil => exact ⟨line_le, column_le⟩
  | cons b bytes ih =>
      apply ih
      · unfold stepOver
        split <;> dsimp only <;> omega
      · unfold stepOver
        split <;> dsimp only <;> omega

namespace Head

def raw (h : Head) : RawHead := ⟨h.cursor.raw, h.position⟩

@[simp] theorem cursor_raw (h : Head) : h.raw.cursor = h.cursor.raw := rfl

@[simp] theorem position_raw (h : Head) : h.raw.position = h.position := rfl

variable {h k : Head} {passed : List UInt8}

theorem tracks_ofSource {source : Source} (short : source.length < Source.maxLength) :
    (ofSource source).Tracks :=
  ⟨inStep_ofSource source, Nat.le_refl _, Nat.le_refl _, short⟩

namespace Tracks

theorem passes (tracks : h.Tracks) (p : h.Passes passed k) : k.Tracks := by
  have bounds := Position.stepOverAll_le passed tracks.line_le tracks.column_le
  rw [← p.position] at bounds
  refine ⟨p.inStep tracks.inStep, bounds.1, bounds.2, ?_⟩
  rw [p.cursor.source_eq]
  exact tracks.short

theorem sync_eq (tracks : h.Tracks) {d : Cursor} (p : h.cursor.Passes passed d) :
    h.raw.sync d.raw = .ok (h.moveTo d).raw := by
  have step : h.position.offset = h.cursor.index := tracks.inStep
  have further := p.index_eq
  have inside := d.index_le
  have short := tracks.short
  have column := tracks.column_le
  rw [p.source_eq] at inside
  have passed_fits : h.position.offset ≤ d.index := by omega
  have column_fits : h.position.column + (d.index - h.position.offset) ≤ Source.maxLength := by
    omega
  unfold RawHead.sync
  simp only [raw, Cursor.index_raw, Checked.sub_eq passed_fits, Checked.add_eq column_fits,
    Checked.ok_bind, Checked.pure_eq_ok, moveTo, Position.onLine]

theorem feedLine_eq (tracks : h.Tracks) (feed : h.cursor.current = Byte.lineFeed) :
    h.raw.feedLine = .ok h.feedLine.raw := by
  have inside := Cursor.not_atEnd_of_current_ne_zero (c := h.cursor) (by rw [feed]; decide)
  have step : h.position.offset = h.cursor.index := tracks.inStep
  have short := tracks.short
  have line := tracks.line_le
  have line_fits : h.position.line + 1 ≤ Source.maxLength := by omega
  have offset_fits : h.position.offset + 1 ≤ Source.maxLength := by omega
  unfold RawHead.feedLine
  simp [raw, Checked.add_eq line_fits, Checked.add_eq offset_fits, Head.feedLine,
    Position.stepOver]

theorem skipTrivia_eq (h : Head) : h.Tracks → h.raw.skipTrivia = .ok h.skipTrivia.raw := by
  -- The rounds of the loop are the cases of `skipTrivia`, and each goes on from a head that
  -- tracks again.
  fun_induction Head.skipTrivia h with
  | case1 h feed ih =>
      intro tracks
      have goesOn : h.raw.skipOne = .ok (.inl h.feedLine.raw) := by
        simp [RawHead.skipOne, feed, tracks.feedLine_eq feed]
      rw [RawHead.skipTrivia, Checked.loop_of_next goesOn (remaining_feedLine_lt feed)]
      exact ih (tracks.passes (passes_feedLine feed))
  | case2 h noFeed blank ih =>
      intro tracks
      have moved := tracks.sync_eq (h.cursor.passes_skipWhile Byte.isBlank)
      have goesOn : h.raw.skipOne =
          .ok (.inl (h.moveTo (h.cursor.skipWhile Byte.isBlank)).raw) := by
        simp [RawHead.skipOne, noFeed, blank, moved]
      rw [RawHead.skipTrivia, Checked.loop_of_next goesOn (remaining_skipBlanks_lt blank)]
      exact ih (tracks.passes (passes_skipBlanks tracks.inStep))
  | case3 h noFeed noBlank sign ih =>
      intro tracks
      have passed : h.cursor.Passes _ h.cursor.skipLine := h.cursor.passes_skipTo _
      have goesOn : h.raw.skipOne = .ok (.inl (h.moveTo h.cursor.skipLine).raw) := by
        rw [sign] at noFeed noBlank
        simp [RawHead.skipOne, sign, noFeed, noBlank, tracks.sync_eq passed]
      rw [RawHead.skipTrivia, Checked.loop_of_next goesOn (remaining_skipLine_lt sign)]
      exact ih (tracks.passes (passes_skipLine tracks.inStep))
  | case4 h noFeed noBlank noSign =>
      intro _
      apply Checked.loop_of_done
      simp [RawHead.skipOne, noFeed, noBlank, noSign]

end Tracks

end Head

/-! ## Tokens -/

inductive RawPayload where
  | none
  | literal (text : Literal)
  | symbol (symbol : Symbol)
deriving DecidableEq

def RawPayload.variant : RawPayload → Payload
  | .none => .none
  | .literal _ => .literal
  | .symbol _ => .symbol

/-- A kind and a payload, which may not fit. -/
structure RawToken where
  kind : Kind
  payload : RawPayload
  position : Position
  length : Nat
deriving DecidableEq

namespace RawToken

/-- The payload is what the kind carries. -/
def Consistent (t : RawToken) : Prop :=
  t.payload.variant = t.kind.payload

def eof (position : Position) : RawToken := ⟨.eof, .none, position, 0⟩

def simple (kind : Kind) (position : Position) (length : Nat) : Except Fault RawToken :=
  if kind.payload = .none then .ok ⟨kind, .none, position, length⟩
  else .error (.token (.payloadMissing kind))

def literal (kind : Kind) (text : Literal) (position : Position) (length : Nat) :
    Except Fault RawToken :=
  if kind.isLiteral then .ok ⟨kind, .literal text, position, length⟩
  else .error (.token (.notLiteral kind))

def identifier (symbol : Symbol) (position : Position) (length : Nat) : RawToken :=
  ⟨.identifier, .symbol symbol, position, length⟩

def isEof (t : RawToken) : Bool := t.kind = .eof

end RawToken

def Content.rawPayload : Content → RawPayload
  | .literal _ text => .literal text
  | .identifier symbol => .symbol symbol
  | _ => .none

namespace Token

def raw (t : Token) : RawToken := ⟨t.kind, t.content.rawPayload, t.position, t.length⟩

@[simp] theorem raw_eof (position : Position) : (eof position).raw = .eof position := rfl

@[simp] theorem isEof_raw (t : Token) : t.raw.isEof = t.isEof := rfl

theorem consistent_raw (t : Token) : t.raw.Consistent := by
  obtain ⟨content, position, length⟩ := t
  cases content <;> rfl

end Token

/-! ### Names -/

namespace Interner

/-- The symbols of all texts have numbers in 32 bits. -/
def Fits (n : Interner) : Prop :=
  n.size ≤ Symbol.maxId + 1

variable {n later : Interner}

theorem id_lt_size_of_resolve? {symbol : Symbol} {text : String}
    (known : n.resolve? symbol = some text) : symbol.id < n.size :=
  (Array.getElem?_eq_some_iff.mp known).1

theorem Grows.size_le (grows : n.Grows later) : n.size ≤ later.size := by
  by_contra more
  have inside : later.size < n.texts.size := Nat.lt_of_not_le more
  have last : n.resolve? ⟨later.size⟩ = some n.texts[later.size] := Array.getElem?_eq_getElem inside
  exact Nat.lt_irrefl _ (id_lt_size_of_resolve? (grows _ _ last))

theorem Fits.of_grows (fits : later.Fits) (grows : n.Grows later) : n.Fits :=
  Nat.le_trans grows.size_le fits

theorem size_intern_le (n : Interner) (text : String) : (n.intern text).2.size ≤ n.size + 1 := by
  unfold size
  rcases texts_intern text n with same | added
  · rw [same]
    omega
  · rw [added, Array.size_push]

end Interner

/-- Interns a text, unless its symbol would need more than 32 bits. -/
def Checked.intern (text : String) (known : Interner) : Except Fault (Symbol × Interner) :=
  match known.intern? text with
  | (.ok symbol, grown) => .ok (symbol, grown)
  | (.error e, _) => .error (.names e)

theorem Checked.intern_eq {text : String} {known : Interner} (sound : known.Sound)
    (fits : (known.intern text).2.Fits) : intern text known = .ok (known.intern text) := by
  have inside := Interner.id_lt_size_of_resolve? (sound.resolve?_intern text)
  have small : (known.intern text).1.id ≤ Symbol.maxId := by
    unfold Interner.Fits at fits
    omega
  rw [intern, Interner.intern?_of_le small]

namespace Lexeme

/-- The token of a lexeme, made by a constructor that checks it. -/
def rawToken (known : Interner) (position : Position) (length : Nat) :
    Lexeme → Except Fault (RawToken × Interner)
  | .literal form text => do
      return (← RawToken.literal (.literal form) ⟨text⟩ position length, known)
  | .punctuation mark => do return (← RawToken.simple (.punctuation mark) position length, known)
  | .unknown _ => do return (← RawToken.simple .unknown position length, known)
  | .word bytes => do
      let text := Utf8.read bytes
      match Keyword.ofText? text with
      | some keyword => return (← RawToken.simple (.keyword keyword) position length, known)
      | none =>
          let (symbol, known) ← Checked.intern text known
          return (RawToken.identifier symbol position length, known)

theorem raw_token (l : Lexeme) {known : Interner} (sound : known.Sound)
    (fits : (l.content known).2.Fits) (position : Position) (length : Nat) :
    l.rawToken known position length =
      .ok ((Token.mk (l.content known).1 position length).raw, (l.content known).2) := by
  cases l with
  | literal | punctuation | unknown => rfl
  | word bytes =>
      unfold rawToken
      dsimp only
      cases found : Keyword.ofText? (Utf8.read bytes) with
      | some keyword =>
          simp only [content, found]
          rfl
      | none =>
          simp only [content, found] at fits ⊢
          rw [Checked.intern_eq sound fits]
          rfl

-- A kind that carries a symbol is refused where none is given.
example : RawToken.simple .identifier .start 1 =
    .error (.token (.payloadMissing .identifier)) := rfl

end Lexeme

/-! ## Scanners -/

structure RawScanner (σ : Type) where
  head : RawHead
  reporter : Reporter σ

namespace RawScanner

variable {σ : Type} [Sink σ]

def next (s : RawScanner σ) (known : Interner) :
    Except Fault (RawToken × RawScanner σ × Interner) := do
  let head ← s.head.skipTrivia
  let start := head.position
  if head.cursor.atEnd then return (.eof start, { s with head }, known)
  else
    let reading ← head.cursor.read start.offset
    let stop ← head.sync reading.stop
    let length ← Checked.sub stop.position.offset start.offset
    let (token, known) ← reading.lexeme.rawToken known start length
    return (token, ⟨stop, Scanner.note s.reporter start reading.error⟩, known)

/-- Tokens taken so far, and what is left. -/
abbrev Taking (σ : Type) := Array RawToken × RawScanner σ × Interner

/-- One more token, the end last. -/
def takeOne : Taking σ → Except Fault (Taking σ ⊕ Taking σ)
  | (taken, s, known) => do
      let (token, s, known) ← s.next known
      if token.isEof then return .inr (taken.push token, s, known)
      else return .inl (taken.push token, s, known)

def drain (s : RawScanner σ) (known : Interner) (taken : Array RawToken) :
    Except Fault (Taking σ) :=
  Checked.loop (fun state => state.2.1.head.cursor.ahead) takeOne (taken, s, known)

def pull (s : RawScanner σ) (known : Interner) :
    Scanner.Pull → Except Fault (List RawToken × RawScanner σ × Interner)
  | .one => do
      let (token, s, known) ← s.next known
      return ([token], s, known)
  | .rest => do
      let (taken, s, known) ← s.drain known #[]
      return (taken.toList, s, known)

def pulls (s : RawScanner σ) (known : Interner) :
    List Scanner.Pull → Except Fault (List (List RawToken) × RawScanner σ × Interner)
  | [] => .ok ([], s, known)
  | p :: ps => do
      let (tokens, s, known) ← s.pull known p
      let (later, s, known) ← s.pulls known ps
      return (tokens :: later, s, known)

end RawScanner

namespace Scanner

variable {σ : Type}

def raw (s : Scanner σ) : RawScanner σ := ⟨s.head.raw, s.reporter⟩

/-- What a pull gives, in raw form. -/
def Pulled.raw (run : Pulled σ) : List (List RawToken) × RawScanner σ × Interner :=
  (run.tokens.map (List.map Token.raw), run.scanner.raw, run.known)

variable [Sink σ] {s : Scanner σ} {known : Interner}

theorem kept_grows (known : Interner) : Kept fun (_ : Scanner σ) later => known.Grows later :=
  fun s later grows => grows.trans (s.grows_next later)

theorem grows_pulls (s : Scanner σ) (known : Interner) (ps : List Pull) :
    known.Grows (s.pulls known ps).known :=
  (kept_grows known).pulls (.refl known) ps

theorem kept_head_tracks : Kept fun (s : Scanner σ) _ => s.head.Tracks := by
  intro s known tracks
  obtain ⟨passed, passes⟩ := passes_next tracks.inStep known
  exact tracks.passes passes

/-- With these no call of a scanner fails, as long as the names fit. -/
theorem kept_tracks : Kept fun (s : Scanner σ) known => s.head.Tracks ∧ known.Sound := by
  intro s known ⟨tracks, sound⟩
  exact ⟨kept_head_tracks s known tracks, s.sound_next sound⟩

theorem raw_next (tracks : s.head.Tracks) (sound : known.Sound) (fits : (s.next known).2.2.Fits) :
    s.raw.next known =
      .ok ((s.next known).1.raw, (s.next known).2.1.raw, (s.next known).2.2) := by
  obtain ⟨gap, _, passes, _⟩ := s.head.skipTrivia_passes tracks.inStep
  have skipped : s.raw.head.skipTrivia = .ok s.head.skipTrivia.raw :=
    Head.Tracks.skipTrivia_eq _ tracks
  have tracks := tracks.passes passes
  -- A token starts where its position says, so slicing from there is slicing from the cursor.
  have step : s.head.skipTrivia.position.offset = s.head.skipTrivia.cursor.index := tracks.inStep
  generalize start : s.head.skipTrivia = head at *
  unfold next at fits ⊢
  rw [RawScanner.next, skipped, Checked.ok_bind]
  simp only [start, Head.cursor_raw, Head.position_raw, Cursor.raw_atEnd] at fits ⊢
  by_cases ended : head.cursor.atEnd = true
  · simp [ended, raw]
  · have more : head.cursor.rest ≠ [] := fun nothing => ended ((Cursor.atEnd_iff _).mpr nothing)
    simp only [ended, Bool.false_eq_true, if_false] at fits ⊢
    rw [step, head.cursor.raw_read, Checked.ok_bind]
    obtain ⟨spelling, passed, _⟩ := Cursor.reads_read more
    have further := passed.index_eq
    have ordered : head.cursor.index ≤ head.cursor.read.stop.index := by omega
    have named := Lexeme.raw_token _ sound fits
    simp only [Reading.raw, tracks.sync_eq passed, Checked.ok_bind, Head.position_raw,
      Head.moveTo, Position.onLine, Checked.sub_eq ordered, named, Checked.pure_eq_ok, raw, step]

theorem raw_drain (taken : Array Token) (tracks : s.head.Tracks) (sound : known.Sound)
    (fits : (s.drain known taken).2.2.Fits) :
    s.raw.drain known (taken.map Token.raw) =
      .ok ((s.drain known taken).1.map Token.raw, (s.drain known taken).2.1.raw,
        (s.drain known taken).2.2) := by
  fun_induction drain s known taken with
  | case1 s known taken result pushed ended =>
      have one := raw_next tracks sound fits
      apply Checked.loop_of_done
      have atEnd : (s.next known).1.isEof = true := ended
      rw [RawScanner.takeOne, one]
      simp [atEnd, result, pushed]
  | case2 s known taken result pushed goesOn ih =>
      have more : (s.next known).1.isEof = false := Bool.eq_false_iff.mpr goesOn
      have grows := (kept_grows result.2.2).drain (s := result.2.1) (.refl _) pushed
      have one := raw_next tracks sound (fits.of_grows grows)
      have next : RawScanner.takeOne (taken.map Token.raw, s.raw, known) =
          .ok (.inl (pushed.map Token.raw, result.2.1.raw, result.2.2)) := by
        rw [RawScanner.takeOne, one]
        simp [more, result, pushed]
      have closer : result.2.1.remaining < s.remaining := remaining_next_lt more
      rw [RawScanner.drain, Checked.loop_of_next next closer]
      obtain ⟨tracksThen, soundThen⟩ := kept_tracks s known ⟨tracks, sound⟩
      exact ih tracksThen soundThen fits

theorem remaining_next_le (s : Scanner σ) (known : Interner) :
    (s.next known).2.1.remaining ≤ s.remaining := by
  cases more : (s.next known).1.isEof with
  | false => exact Nat.le_of_lt (remaining_next_lt more)
  | true =>
      unfold next at more ⊢
      dsimp only at more ⊢
      split at more
      · rename_i ended
        rw [if_pos ended]
        exact s.head.remaining_skipTrivia_le
      · exact absurd ((Token.isEof_iff _).mp more) (Lexeme.content_ne_eof _ _)

/-- A name that is new takes a byte at least. -/
theorem size_add_remaining_next_le (s : Scanner σ) (known : Interner) :
    (s.next known).2.2.size + (s.next known).2.1.remaining ≤ known.size + s.remaining := by
  cases more : (s.next known).1.isEof with
  | true =>
      have isEof : (s.next known).1.kind ≠ .identifier := by
        unfold Token.isEof at more
        rw [of_decide_eq_true more]
        exact Kind.noConfusion
      have fewer := s.remaining_next_le known
      rw [next_names_of_kind_ne isEof]
      omega
  | false =>
      have fewer := remaining_next_lt more
      have one_name : (s.next known).2.2.size ≤ known.size + 1 := by
        cases s.next_eq with
        | eof position s' step =>
            rw [step]
            exact Nat.le_succ _
        | lexeme l position length s' step =>
            rw [step, l.content_snd]
            cases l.name? with
            | none => exact Nat.le_succ _
            | some text => exact known.size_intern_le text
      omega

/-- Where there are symbols for as many names as there are bytes, all names fit. -/
theorem fits_pulls {source : Source} {sink : σ}
    (room : known.size + source.length ≤ Symbol.maxId + 1) (ps : List Pull) :
    ((ofSource source sink).pulls known ps).known.Fits := by
  have kept : Kept fun (s : Scanner σ) n => n.size + s.remaining ≤ Symbol.maxId + 1 :=
    fun s n before => Nat.le_trans (s.size_add_remaining_next_le n) before
  have run := kept.pulls (s := ofSource source sink) room ps
  unfold Interner.Fits
  omega

theorem raw_pull (tracks : s.head.Tracks) (sound : known.Sound) {p : Pull}
    (fits : (s.pull known p).2.2.Fits) :
    s.raw.pull known p =
      .ok ((s.pull known p).1.map Token.raw, (s.pull known p).2.1.raw, (s.pull known p).2.2) := by
  cases p with
  | one =>
      rw [RawScanner.pull, raw_next tracks sound fits]
      rfl
  | rest =>
      have drained := raw_drain #[] tracks sound fits
      rw [Array.map_empty] at drained
      rw [RawScanner.pull, drained]
      simp [pull, all]

/-- If all names fit in the end, every pull of a run succeeds, and gives
what it gives without the checks. -/
theorem raw_pulls (tracks : s.head.Tracks) (sound : known.Sound) {ps : List Pull}
    (fits : (s.pulls known ps).known.Fits) :
    s.raw.pulls known ps = .ok (s.pulls known ps).raw := by
  induction ps generalizing s known with
  | nil => rfl
  | cons p ps ih =>
      obtain ⟨tracksThen, soundThen⟩ := kept_tracks.pull ⟨tracks, sound⟩ p
      have one := raw_pull tracks sound (fits.of_grows (grows_pulls _ _ ps))
      have later := ih tracksThen soundThen fits
      rw [RawScanner.pulls, one, Checked.ok_bind]
      dsimp only
      rw [later]
      rfl

end Scanner

end Lexis
