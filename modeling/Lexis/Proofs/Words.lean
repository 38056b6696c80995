/-
# Lexis.Proofs.Words -- scanning with words of 32 bits

The numbers of a scan are natural numbers.  Here every index, line, column, offset and
length is a word of 32 bits instead, and sums and differences of words wrap around.

Taking the word of a number keeps sums, and differences that are not negative, and numbers
that fit keep their order.  An index is never beyond its text and a text is never too long
for a word, so a cursor goes the same way in words (`words_skipWhile`, `words_skipLine`,
`words_seek`), and so does reading a lexeme (`words_read`).  A position keeps up with it
where no difference is negative, which is where its offset is not ahead of the cursor
(`words_sync`).  From these the words of a whole run are put together (`words_pulls`).
-/
import Lexis.Proofs.Contracts

namespace Lexis

set_option autoImplicit false

/-! ## Numbers -/

theorem toNat_ofNat_of_le {n : Nat} (fits : n ≤ Source.maxLength) : (UInt32.ofNat n).toNat = n :=
  UInt32.toNat_ofNat_of_lt' (Nat.lt_succ_of_le fits)

theorem toNat_min (a b : UInt32) : (min a b).toNat = min a.toNat b.toNat := by
  show (if a ≤ b then a else b).toNat = _
  split
  · rename_i ordered
    rw [Nat.min_eq_left (UInt32.le_iff_toNat_le.mp ordered)]
  · rename_i ordered
    rw [UInt32.le_iff_toNat_le] at ordered
    omega

/-- The sum of two words, or the greatest word where that would wrap around. -/
def saturatingAdd (a b : UInt32) : UInt32 :=
  if a.toNat + b.toNat ≤ Source.maxLength then a + b else .ofNat Source.maxLength

theorem toNat_saturatingAdd (a b : UInt32) :
    (saturatingAdd a b).toNat = min (a.toNat + b.toNat) Source.maxLength := by
  unfold saturatingAdd
  split
  · rename_i fits
    rw [UInt32.toNat_add, Nat.min_eq_left fits]
    exact Nat.mod_eq_of_lt (Nat.lt_succ_of_le fits)
  · rw [toNat_ofNat_of_le (Nat.le_refl _)]
    omega

/-! ## Cursors -/

/-- A source and a word, which may point anywhere. -/
structure WordCursor where
  source : Source
  index : UInt32

namespace WordCursor

def length (c : WordCursor) : UInt32 := .ofNat c.source.length

def peek (c : WordCursor) (k : Nat) : UInt8 := c.source.byte (c.index.toNat + k)

def current (c : WordCursor) : UInt8 := c.peek 0

def atEnd (c : WordCursor) : Bool := c.length ≤ c.index

/-- The bytes ahead. -/
def rest (c : WordCursor) : List UInt8 := c.source.bytes.drop c.index.toNat

/-- How many bytes are ahead. -/
def remaining (c : WordCursor) : Nat := c.source.length - c.index.toNat

/-- So many bytes further. -/
def forward (c : WordCursor) (n : UInt32) : WordCursor := { c with index := c.index + n }

def toEnd (c : WordCursor) : WordCursor := { c with index := c.length }

def advance (c : WordCursor) : WordCursor :=
  if c.index < c.length then c.forward 1 else c

def advanceBy (c : WordCursor) (n : UInt32) : WordCursor :=
  { c with index := min (saturatingAdd c.index n) c.length }

theorem inside_of_atEnd {c : WordCursor} (more : c.atEnd = false) :
    c.index.toNat < c.source.length := by
  have ahead : c.index < c.length := by simpa [atEnd] using more
  rwa [UInt32.lt_iff_toNat_lt, length, toNat_ofNat_of_le c.source.length_le_max] at ahead

theorem remaining_forward_lt {c : WordCursor} (more : c.atEnd = false) :
    (c.forward 1).remaining < c.remaining := by
  have inside := inside_of_atEnd more
  have fits := c.source.length_le_max
  unfold Source.maxLength at fits
  have next : (c.index + 1).toNat = c.index.toNat + 1 := by
    rw [UInt32.toNat_add]
    exact Nat.mod_eq_of_lt (by simp only [UInt32.toNat_one]; omega)
  simp only [remaining, forward, next]
  omega

/-- Over the run of bytes of the class, byte by byte. -/
def skipWhile (c : WordCursor) (inClass : UInt8 → Bool) : WordCursor :=
  if c.atEnd then c
  else if inClass c.current then (c.forward 1).skipWhile inClass
  else c
termination_by c.remaining
decreasing_by exact remaining_forward_lt (Bool.eq_false_iff.mpr ‹_›)

def skipLine (c : WordCursor) : WordCursor :=
  match c.rest.findIdx? (· == Byte.lineFeed) with
  | some k => c.forward (.ofNat k)
  | none => c.toEnd

def seek (c : WordCursor) (delimiter : UInt8) : Option UInt8 × WordCursor :=
  match c.rest.findIdx? fun b => b == delimiter || b == Byte.lineFeed with
  | some k => (some (c.forward (.ofNat k)).current, c.forward (.ofNat k))
  | none => (none, c.toEnd)

def slice (c : WordCursor) (start stop : UInt32) : List UInt8 :=
  let stop := min stop.toNat c.length.toNat
  c.source.slice (min start.toNat stop) stop

def sliceFrom (c : WordCursor) (start : UInt32) : List UInt8 :=
  c.slice start c.index

end WordCursor

/-! ### The same way -/

namespace Cursor

def words (c : Cursor) : WordCursor := ⟨c.source, .ofNat c.index⟩

variable (c : Cursor)

theorem index_le_max : c.index ≤ Source.maxLength :=
  Nat.le_trans c.index_le c.source.length_le_max

@[simp] theorem index_words : c.words.index = .ofNat c.index := rfl

@[simp] theorem toNat_index_words : c.words.index.toNat = c.index :=
  toNat_ofNat_of_le c.index_le_max

@[simp] theorem toNat_length_words : c.words.length.toNat = c.source.length :=
  toNat_ofNat_of_le c.source.length_le_max

@[simp] theorem words_peek (k : Nat) : c.words.peek k = c.peek k := by
  rw [WordCursor.peek, toNat_index_words]
  rfl

@[simp] theorem words_current : c.words.current = c.current :=
  c.words_peek 0

@[simp] theorem words_rest : c.words.rest = c.rest := by
  rw [WordCursor.rest, toNat_index_words]
  rfl

@[simp] theorem words_remaining : c.words.remaining = c.remaining := by
  rw [WordCursor.remaining, toNat_index_words]
  rfl

@[simp] theorem words_atEnd : c.words.atEnd = c.atEnd := by
  apply decide_eq_decide.mpr
  rw [UInt32.le_iff_toNat_le, toNat_index_words, toNat_length_words]

theorem words_forward {n : Nat} {d : Cursor} (same : d.source = c.source)
    (index : d.index = c.index + n) : c.words.forward (.ofNat n) = d.words := by
  simp only [WordCursor.forward, words, same, index, UInt32.ofNat_add]

theorem words_toEnd {d : Cursor} (same : d.source = c.source) (ended : d.index = c.source.length) :
    c.words.toEnd = d.words := by
  simp only [WordCursor.toEnd, words, WordCursor.length, same, ended]

@[simp] theorem words_advance : c.words.advance = c.advance.words := by
  have ahead : c.words.index < c.words.length ↔ c.index < c.source.length := by
    rw [UInt32.lt_iff_toNat_lt, toNat_index_words, toNat_length_words]
  unfold WordCursor.advance
  by_cases inside : c.index < c.source.length
  · rw [if_pos (ahead.mpr inside)]
    exact c.words_forward c.source_advance (index_advance inside)
  · rw [if_neg (mt ahead.mp inside), advance, dif_neg inside]

@[simp] theorem words_advanceBy {n : Nat} (fits : n ≤ Source.maxLength) :
    c.words.advanceBy (.ofNat n) = (c.advanceBy n).words := by
  have inside := c.source.length_le_max
  refine congrArg (WordCursor.mk c.source) (UInt32.toNat_inj.mp ?_)
  rw [toNat_min, toNat_saturatingAdd, toNat_index_words, toNat_length_words,
    toNat_ofNat_of_le fits, toNat_ofNat_of_le (c.advanceBy n).index_le_max]
  show _ = min (c.index + n) c.source.length
  omega

@[simp] theorem words_slice {start stop : Nat} (start_fits : start ≤ Source.maxLength)
    (stop_fits : stop ≤ Source.maxLength) :
    c.words.slice (.ofNat start) (.ofNat stop) = c.slice start stop := by
  rw [WordCursor.slice, toNat_ofNat_of_le start_fits, toNat_ofNat_of_le stop_fits,
    toNat_length_words]
  rfl

theorem words_sliceFrom {start : Nat} (fits : start ≤ Source.maxLength) :
    c.words.sliceFrom (.ofNat start) = c.sliceFrom start :=
  c.words_slice fits c.index_le_max

/-- Word by word the run ends at the same byte. -/
@[simp] theorem words_skipWhile (c : Cursor) (inClass : UInt8 → Bool) :
    c.words.skipWhile inClass = (c.skipWhile inClass).words := by
  -- By induction on what is left, as each round takes one byte.
  induction left : c.remaining generalizing c with
  | zero =>
      have ended : c.atEnd = true := by
        simpa [atEnd, remaining, Nat.sub_eq_zero_iff_le] using left
      rw [skipWhile_eq_self (.inl ended), WordCursor.skipWhile, words_atEnd, if_pos ended]
  | succ n ih =>
      have inside : c.index < c.source.length := by
        unfold remaining at left
        omega
      have more : c.atEnd = false := by simpa [atEnd] using inside
      rw [WordCursor.skipWhile, words_atEnd, words_current, if_neg (by rw [more]; decide)]
      by_cases belongs : inClass c.current = true
      · have further : c.advance.remaining = n := by
          simp only [remaining, source_advance, index_advance inside] at left ⊢
          omega
        have forward : c.words.forward 1 = c.advance.words :=
          c.words_forward c.source_advance (index_advance inside)
        rw [if_pos belongs, forward, ih c.advance further, advance_skipWhile belongs inside]
      · rw [if_neg belongs, skipWhile_eq_self (.inr (Bool.eq_false_iff.mpr belongs))]

@[simp] theorem words_skipLine (c : Cursor) : c.words.skipLine = c.skipLine.words := by
  have same : c.skipLine.source = c.source := c.source_skipTo _
  unfold WordCursor.skipLine
  rw [words_rest]
  rcases c.skipTo_cases (· == Byte.lineFeed) with ⟨nowhere, stop⟩ | ⟨k, found, stop, _⟩
  · rw [nowhere]
    exact c.words_toEnd same stop
  · rw [found]
    exact c.words_forward same stop

/-- What a search found, and the words of where it stopped. -/
def wordsFound (found : Option UInt8 × Cursor) : Option UInt8 × WordCursor :=
  (found.1, found.2.words)

@[simp] theorem words_seek (c : Cursor) (delimiter : UInt8) :
    c.words.seek delimiter = wordsFound (c.seek delimiter) := by
  have same := c.source_seek delimiter
  unfold WordCursor.seek wordsFound
  rw [words_rest]
  rcases c.seek_cases delimiter with ⟨nowhere, nothing, ended⟩ | ⟨k, here, found, stop⟩
  · rw [nowhere, nothing]
    exact congrArg (Prod.mk none) (c.words_toEnd same ended)
  · have reached := c.words_forward same stop
    rw [here, found]
    dsimp only
    rw [reached, words_current]

end Cursor

/-! ## Readings -/

structure WordReading where
  lexeme : Lexeme
  error : Option LexicalError
  stop : WordCursor

namespace WordCursor

/-! A token is sliced from the offset of its position, which need not be that of the cursor. -/

def readNumber (c : WordCursor) (start : UInt32) : WordReading :=
  let whole := c.skipWhile Byte.isDigit
  if whole.current == Byte.dot && Byte.isDigit (whole.peek 1) then
    let stop := whole.advance.skipWhile Byte.isDigit
    ⟨.literal .float64 (stop.sliceFrom start), none, stop⟩
  else ⟨.literal .int32 (whole.sliceFrom start), none, whole⟩

def readWord (c : WordCursor) (start : UInt32) : WordReading :=
  let stop := c.skipWhile Byte.isNameByte
  ⟨.word (stop.sliceFrom start), none, stop⟩

def readString (c : WordCursor) : WordReading :=
  let content := c.advance
  let (found, stop) := content.seek Byte.quote
  let lexeme := .literal .string (stop.sliceFrom content.index)
  if found = some Byte.quote then ⟨lexeme, none, stop.advance⟩
  else ⟨lexeme, some .unterminatedString, stop⟩

def advanceOnLine (c : WordCursor) : WordCursor :=
  if c.atEnd || c.current == Byte.lineFeed then c else c.advance

def readChar (c : WordCursor) : WordReading :=
  let content := c.advance
  let stop := content.advanceOnLine
  let lexeme := .literal .char (stop.sliceFrom content.index)
  if !stop.atEnd && stop.current == Byte.apostrophe then ⟨lexeme, none, stop.advance⟩
  else ⟨lexeme, some .unterminatedChar, stop⟩

def readMark (c : WordCursor) : WordReading :=
  match Punctuation.longest? c.current (c.peek 1) (c.peek 2) with
  | some (mark, length) => ⟨.punctuation mark, none, c.advanceBy (.ofNat length)⟩
  | none => ⟨.unknown c.current, some (.unknownByte c.current), c.advance⟩

def read (c : WordCursor) (start : UInt32) : WordReading :=
  let first := c.current
  if Byte.isDigit first then c.readNumber start
  else if Byte.isNameStart first then c.readWord start
  else if first == Byte.quote then c.readString
  else if first == Byte.apostrophe then c.readChar
  else c.readMark

end WordCursor

def Reading.words (r : Reading) : WordReading := ⟨r.lexeme, r.error, r.stop.words⟩

namespace Cursor

variable (c : Cursor)

theorem words_readNumber : c.words.readNumber (.ofNat c.index) = c.readNumber.words := by
  unfold WordCursor.readNumber readNumber
  simp only [words_skipWhile, words_current, words_peek, words_advance,
    words_sliceFrom _ c.index_le_max]
  split <;> rfl

theorem words_readWord : c.words.readWord (.ofNat c.index) = c.readWord.words := by
  unfold WordCursor.readWord readWord
  simp only [words_skipWhile, words_sliceFrom _ c.index_le_max]
  rfl

theorem words_readString : c.words.readString = c.readString.words := by
  unfold WordCursor.readString readString
  simp only [words_advance, words_seek, wordsFound, index_words,
    words_sliceFrom _ c.advance.index_le_max]
  split <;> rfl

theorem words_advanceOnLine : c.words.advanceOnLine = c.advanceOnLine.words := by
  unfold WordCursor.advanceOnLine advanceOnLine
  simp only [words_atEnd, words_current, words_advance]
  split <;> rfl

theorem words_readChar : c.words.readChar = c.readChar.words := by
  unfold WordCursor.readChar readChar
  simp only [words_advance, words_advanceOnLine, index_words, words_atEnd, words_current,
    words_sliceFrom _ c.advance.index_le_max]
  split <;> rfl

theorem words_readMark : c.words.readMark = c.readMark.words := by
  unfold WordCursor.readMark readMark
  simp only [words_current, words_peek]
  cases found : Punctuation.longest? c.current (c.peek 1) (c.peek 2) with
  | some row =>
      obtain ⟨mark, length⟩ := row
      have inTable := Punctuation.length_of_longest? found
      have short := mark.utf8ByteSize_lexeme_le
      have fits : length ≤ Source.maxLength := by
        unfold Source.maxLength
        omega
      dsimp only
      rw [c.words_advanceBy fits]
      rfl
  | none =>
      dsimp only
      rw [words_advance]
      rfl

theorem words_read : c.words.read (.ofNat c.index) = c.read.words := by
  unfold WordCursor.read read
  simp only [words_current, words_readNumber, words_readWord, words_readString, words_readChar,
    words_readMark]
  split
  · rfl
  split
  · rfl
  split
  · rfl
  split <;> rfl

end Cursor

/-! ## Heads -/

structure WordPosition where
  line : UInt32
  column : UInt32
  offset : UInt32
deriving DecidableEq

namespace WordPosition

def start : WordPosition := ⟨1, 1, 0⟩

def stepOver (p : WordPosition) (b : UInt8) : WordPosition :=
  if b = Byte.lineFeed then ⟨p.line + 1, 1, p.offset + 1⟩
  else ⟨p.line, p.column + 1, p.offset + 1⟩

/-- The numbers of the words. -/
def plain (p : WordPosition) : Position := ⟨p.line.toNat, p.column.toNat, p.offset.toNat⟩

-- Words do wrap around: after the greatest line comes line zero.
example : stepOver ⟨4294967295, 7, 8⟩ Byte.lineFeed = ⟨0, 1, 9⟩ := by decide

end WordPosition

namespace Position

def words (p : Position) : WordPosition := ⟨.ofNat p.line, .ofNat p.column, .ofNat p.offset⟩

theorem words_stepOver (p : Position) (b : UInt8) : p.words.stepOver b = (p.stepOver b).words := by
  unfold WordPosition.stepOver stepOver words
  split
  · simp only [UInt32.ofNat_add]
    rfl
  · simp only [UInt32.ofNat_add]
    rfl

theorem plain_words {p : Position} (line : p.line ≤ Source.maxLength)
    (column : p.column ≤ Source.maxLength) (offset : p.offset ≤ Source.maxLength) :
    p.words.plain = p := by
  rw [WordPosition.plain, words, toNat_ofNat_of_le line, toNat_ofNat_of_le column,
    toNat_ofNat_of_le offset]

end Position

namespace WordCursor

variable {c : WordCursor}

/-- A word that points at a byte of the text is that of a cursor. -/
theorem exists_words (inside : c.index.toNat < c.source.length) : ∃ d : Cursor, d.words = c := by
  refine ⟨⟨c.source, c.index.toNat, Nat.le_of_lt inside⟩, ?_⟩
  exact congrArg (WordCursor.mk c.source) UInt32.ofNat_toNat

theorem inside_of_current_ne_zero (some_byte : c.current ≠ 0) :
    c.index.toNat < c.source.length := by
  by_contra past
  exact some_byte (c.source.byte_of_length_le (Nat.le_of_not_lt past))

theorem remaining_advance_lt (some_byte : c.current ≠ 0) : c.advance.remaining < c.remaining := by
  obtain ⟨d, rfl⟩ := exists_words (inside_of_current_ne_zero some_byte)
  rw [Cursor.words_current] at some_byte
  have inside := Cursor.not_atEnd_of_current_ne_zero some_byte
  rw [Cursor.words_advance, Cursor.words_remaining, Cursor.words_remaining]
  exact Cursor.remaining_lt d.source_advance (by rw [Cursor.index_advance inside]; omega)

theorem remaining_skipWhile_lt {inClass : UInt8 → Bool} (first : inClass c.current = true)
    (some_byte : c.current ≠ 0) : (c.skipWhile inClass).remaining < c.remaining := by
  obtain ⟨d, rfl⟩ := exists_words (inside_of_current_ne_zero some_byte)
  rw [Cursor.words_current] at some_byte first
  have inside := Cursor.not_atEnd_of_current_ne_zero some_byte
  rw [Cursor.words_skipWhile, Cursor.words_remaining, Cursor.words_remaining]
  exact Cursor.remaining_lt rfl (Cursor.lt_index_skipWhile first inside)

theorem remaining_skipLine_lt (some_byte : c.current ≠ 0)
    (sameLine : c.current ≠ Byte.lineFeed) : c.skipLine.remaining < c.remaining := by
  obtain ⟨d, rfl⟩ := exists_words (inside_of_current_ne_zero some_byte)
  rw [Cursor.words_current] at some_byte sameLine
  have inside := Cursor.not_atEnd_of_current_ne_zero some_byte
  rw [Cursor.words_skipLine, Cursor.words_remaining, Cursor.words_remaining]
  exact Cursor.remaining_lt (d.source_skipTo _)
    (Cursor.lt_index_skipTo (beq_eq_false_iff_ne.mpr sameLine) inside)

/-- Where a reading stops does not depend on where its token is sliced from. -/
theorem stop_read (c : WordCursor) (start start' : UInt32) :
    (c.read start).stop = (c.read start').stop := by
  unfold read readNumber
  dsimp only
  split
  · split <;> rfl
  split <;> rfl

theorem remaining_stop_read_lt (more : c.atEnd = false) (start : UInt32) :
    (c.read start).stop.remaining < c.remaining := by
  obtain ⟨d, rfl⟩ := exists_words (inside_of_atEnd more)
  have inside : d.index < d.source.length := by simpa [Cursor.atEnd] using more
  rw [d.words.stop_read start (.ofNat d.index), Cursor.words_read, Cursor.words_remaining]
  show d.read.stop.words.remaining < _
  rw [Cursor.words_remaining]
  exact Cursor.remaining_lt d.source_stop_read (Cursor.lt_index_stop_read inside)

end WordCursor

structure WordHead where
  cursor : WordCursor
  position : WordPosition

namespace WordHead

/-- The position follows a cursor that has passed bytes of one line. -/
def sync (h : WordHead) (cursor : WordCursor) : WordHead :=
  ⟨cursor, ⟨h.position.line, h.position.column + (cursor.index - h.position.offset),
    cursor.index⟩⟩

def feedLine (h : WordHead) : WordHead :=
  ⟨h.cursor.advance, h.position.stepOver Byte.lineFeed⟩

theorem remaining_feedLine_lt {h : WordHead} (feed : h.cursor.current = Byte.lineFeed) :
    h.feedLine.cursor.remaining < h.cursor.remaining :=
  WordCursor.remaining_advance_lt (by rw [feed]; decide)

theorem remaining_skipBlanks_lt {h : WordHead} (blank : Byte.isBlank h.cursor.current = true) :
    (h.cursor.skipWhile Byte.isBlank).remaining < h.cursor.remaining :=
  WordCursor.remaining_skipWhile_lt blank fun zero => by simp [zero, Byte.isBlank_zero] at blank

theorem remaining_skipLine_lt {h : WordHead} (sign : h.cursor.current = Byte.hash) :
    h.cursor.skipLine.remaining < h.cursor.remaining :=
  WordCursor.remaining_skipLine_lt (by rw [sign]; decide) (by rw [sign]; decide)

def skipTrivia (h : WordHead) : WordHead :=
  if h.cursor.current = Byte.lineFeed then h.feedLine.skipTrivia
  else if Byte.isBlank h.cursor.current then
    (h.sync (h.cursor.skipWhile Byte.isBlank)).skipTrivia
  else if h.cursor.current = Byte.hash then (h.sync h.cursor.skipLine).skipTrivia
  else h
termination_by h.cursor.remaining
decreasing_by
  · exact remaining_feedLine_lt ‹_›
  · exact remaining_skipBlanks_lt ‹_›
  · exact remaining_skipLine_lt ‹_›

theorem remaining_skipTrivia_le (h : WordHead) :
    h.skipTrivia.cursor.remaining ≤ h.cursor.remaining := by
  fun_induction skipTrivia h with
  | case1 h feed ih => exact Nat.le_of_lt (Nat.lt_of_le_of_lt ih (remaining_feedLine_lt feed))
  | case2 h _ blank ih => exact Nat.le_of_lt (Nat.lt_of_le_of_lt ih (remaining_skipBlanks_lt blank))
  | case3 h _ _ sign ih => exact Nat.le_of_lt (Nat.lt_of_le_of_lt ih (remaining_skipLine_lt sign))
  | case4 h => exact Nat.le_refl _

end WordHead

namespace Head

def words (h : Head) : WordHead := ⟨h.cursor.words, h.position.words⟩

@[simp] theorem cursor_words (h : Head) : h.words.cursor = h.cursor.words := rfl

@[simp] theorem position_words (h : Head) : h.words.position = h.position.words := rfl

theorem words_feedLine (h : Head) : h.words.feedLine = h.feedLine.words := by
  unfold WordHead.feedLine feedLine
  rw [cursor_words, position_words, Cursor.words_advance, Position.words_stepOver]
  rfl

/-- A position that is not ahead of the cursor keeps up with it. -/
theorem words_sync (h : Head) {d : Cursor} (behind : h.position.offset ≤ d.index) :
    h.words.sync d.words = (h.moveTo d).words := by
  simp only [WordHead.sync, words, moveTo, Position.words, Position.onLine, Cursor.index_words,
    UInt32.ofNat_add, UInt32.ofNat_sub behind]

/-- No number of a head that tracks is lost in its words. -/
theorem Tracks.plain_position {h : Head} (tracks : h.Tracks) :
    h.position.words.plain = h.position := by
  have step : h.position.offset = h.cursor.index := tracks.inStep
  have line := tracks.line_le
  have column := tracks.column_le
  have inside := h.cursor.index_le
  have short := tracks.short
  apply Position.plain_words <;> omega

theorem words_skipTrivia (h : Head) : h.InStep → h.words.skipTrivia = h.skipTrivia.words := by
  -- The rounds are the same, and after each the head is in step again.
  fun_induction skipTrivia h with
  | case1 h feed ih =>
      intro step
      have again := ih ((passes_feedLine feed).inStep step)
      rw [WordHead.skipTrivia, cursor_words, Cursor.words_current, if_pos feed, words_feedLine]
      exact again
  | case2 h noFeed blank ih =>
      intro step
      have behind : h.position.offset ≤ (h.cursor.skipWhile Byte.isBlank).index := by
        rw [show h.position.offset = _ from step]
        exact h.cursor.le_index_skipWhile _
      have again := ih ((passes_skipBlanks step).inStep step)
      rw [WordHead.skipTrivia, cursor_words, Cursor.words_current, if_neg noFeed, if_pos blank,
        Cursor.words_skipWhile, h.words_sync behind]
      exact again
  | case3 h noFeed noBlank sign ih =>
      intro step
      have behind : h.position.offset ≤ h.cursor.skipLine.index := by
        rw [show h.position.offset = _ from step]
        exact h.cursor.le_index_skipTo _
      have again := ih ((passes_skipLine step).inStep step)
      rw [WordHead.skipTrivia, cursor_words, Cursor.words_current, if_neg noFeed,
        if_neg (by simpa using noBlank), if_pos sign, Cursor.words_skipLine, h.words_sync behind]
      exact again
  | case4 h noFeed noBlank noSign =>
      intro _
      rw [WordHead.skipTrivia, cursor_words, Cursor.words_current, if_neg noFeed,
        if_neg (by simpa using noBlank), if_neg noSign]

end Head

/-! ## Scanners -/

structure WordToken where
  content : Content
  position : WordPosition
  length : UInt32

namespace WordToken

def plain (t : WordToken) : Token := ⟨t.content, t.position.plain, t.length.toNat⟩

def isEof (t : WordToken) : Bool := t.content.kind = .eof

end WordToken

def Token.words (t : Token) : WordToken := ⟨t.content, t.position.words, .ofNat t.length⟩

structure WordScanner (σ : Type) where
  head : WordHead
  reporter : Reporter σ

namespace WordScanner

variable {σ : Type}

def ofSource (source : Source) (sink : σ) : WordScanner σ :=
  ⟨⟨⟨source, 0⟩, .start⟩, .ofSource source sink⟩

variable [Sink σ]

def next (s : WordScanner σ) (known : Interner) : WordToken × WordScanner σ × Interner :=
  let head := s.head.skipTrivia
  let start := head.position
  if head.cursor.atEnd then (⟨.eof, start, 0⟩, { s with head }, known)
  else
    let reading := head.cursor.read start.offset
    let stop := head.sync reading.stop
    let (content, known) := reading.lexeme.content known
    (⟨content, start, stop.position.offset - start.offset⟩,
      ⟨stop, Scanner.note s.reporter start.plain reading.error⟩, known)

theorem remaining_next_lt {s : WordScanner σ} {known : Interner}
    (goesOn : (s.next known).1.isEof = false) :
    (s.next known).2.1.head.cursor.remaining < s.head.cursor.remaining := by
  have trivia := s.head.remaining_skipTrivia_le
  unfold next at goesOn ⊢
  dsimp only at goesOn ⊢
  split
  · rename_i ended
    simp [ended, WordToken.isEof, Content.kind] at goesOn
  · rename_i ahead
    exact Nat.lt_of_lt_of_le
      (WordCursor.remaining_stop_read_lt (Bool.eq_false_iff.mpr ahead) _) trivia

def drain (s : WordScanner σ) (known : Interner) (taken : Array WordToken) :
    Array WordToken × WordScanner σ × Interner :=
  let step := s.next known
  let taken := taken.push step.1
  if step.1.isEof then (taken, step.2) else step.2.1.drain step.2.2 taken
termination_by s.head.cursor.remaining
decreasing_by exact remaining_next_lt (Bool.eq_false_iff.mpr ‹_›)

def pull (s : WordScanner σ) (known : Interner) :
    Scanner.Pull → List WordToken × WordScanner σ × Interner
  | .one =>
      let (token, s, known) := s.next known
      ([token], s, known)
  | .rest =>
      let (taken, s, known) := s.drain known #[]
      (taken.toList, s, known)

/-- What a run of pulls has given, and what it leaves. -/
structure Pulled (σ : Type) where
  tokens : List (List WordToken)
  scanner : WordScanner σ
  known : Interner

def pulls (s : WordScanner σ) (known : Interner) : List Scanner.Pull → Pulled σ
  | [] => ⟨[], s, known⟩
  | p :: ps =>
      let (tokens, s, known) := s.pull known p
      let later := s.pulls known ps
      { later with tokens := tokens :: later.tokens }

end WordScanner

namespace Scanner

variable {σ : Type}

def words (s : Scanner σ) : WordScanner σ := ⟨s.head.words, s.reporter⟩

theorem words_ofSource (source : Source) (sink : σ) :
    (ofSource source sink).words = .ofSource source sink := rfl

def Pulled.words (run : Pulled σ) : WordScanner.Pulled σ :=
  ⟨run.tokens.map (List.map Token.words), run.scanner.words, run.known⟩

variable [Sink σ] {s : Scanner σ} {known : Interner}

theorem words_next (tracks : s.head.Tracks) (known : Interner) :
    s.words.next known =
      ((s.next known).1.words, (s.next known).2.1.words, (s.next known).2.2) := by
  obtain ⟨gap, _, passes, _⟩ := s.head.skipTrivia_passes tracks.inStep
  have skipped : s.words.head.skipTrivia = s.head.skipTrivia.words :=
    s.head.words_skipTrivia tracks.inStep
  have tracks := tracks.passes passes
  -- A token starts where its position says, so slicing from there is slicing from the cursor.
  have step : s.head.skipTrivia.position.offset = s.head.skipTrivia.cursor.index := tracks.inStep
  generalize start : s.head.skipTrivia = head at *
  unfold WordScanner.next next
  simp only [skipped, start, Head.cursor_words, Head.position_words, Cursor.words_atEnd]
  by_cases ended : head.cursor.atEnd = true
  · simp only [ended, if_true]
    rfl
  · have inside : head.cursor.index < head.cursor.source.length := by
      simpa [Cursor.atEnd] using ended
    have behind : head.position.offset ≤ head.cursor.read.stop.index := by
      rw [step]
      exact Nat.le_of_lt (Cursor.lt_index_stop_read inside)
    have read : head.cursor.words.read head.position.words.offset = head.cursor.read.words := by
      rw [← head.cursor.words_read, ← step]
      rfl
    have synced : head.words.sync head.cursor.read.words.stop =
        (head.moveTo head.cursor.read.stop).words := head.words_sync behind
    have length : (head.moveTo head.cursor.read.stop).words.position.offset -
        head.position.words.offset =
          .ofNat ((head.moveTo head.cursor.read.stop).position.offset - head.position.offset) :=
      (UInt32.ofNat_sub behind).symm
    simp only [ended, Bool.false_eq_true, if_false, read, synced, length, tracks.plain_position]
    rfl

theorem words_drain (tracks : s.head.Tracks) (known : Interner) (taken : Array Token) :
    s.words.drain known (taken.map Token.words) =
      ((s.drain known taken).1.map Token.words, (s.drain known taken).2.1.words,
        (s.drain known taken).2.2) := by
  fun_induction drain s known taken with
  | case1 s known taken step pushed ended =>
      have atEnd : (s.next known).1.words.isEof = true := ended
      rw [WordScanner.drain, words_next tracks, if_pos atEnd, ← Array.map_push]
  | case2 s known taken step pushed goesOn ih =>
      have more : ¬ (s.next known).1.words.isEof = true := goesOn
      rw [WordScanner.drain, words_next tracks, if_neg more, ← Array.map_push]
      exact ih (kept_head_tracks s known tracks)

theorem words_pull (tracks : s.head.Tracks) (known : Interner) (p : Pull) :
    s.words.pull known p = ((s.pull known p).1.map Token.words, (s.pull known p).2.1.words,
      (s.pull known p).2.2) := by
  cases p with
  | one =>
      rw [WordScanner.pull, words_next tracks]
      rfl
  | rest =>
      have drained := words_drain tracks known #[]
      rw [Array.map_empty] at drained
      rw [WordScanner.pull, drained]
      simp [pull, all]

/-- A run in words gives the words of the run. -/
theorem words_pulls (tracks : s.head.Tracks) (known : Interner) (ps : List Pull) :
    s.words.pulls known ps = (s.pulls known ps).words := by
  induction ps generalizing s known with
  | nil => rfl
  | cons p ps ih =>
      rw [WordScanner.pulls, words_pull tracks]
      dsimp only
      rw [ih (kept_head_tracks.pull tracks p)]
      rfl

end Scanner

end Lexis
