/-
# Lexis.Interner -- one symbol for each text

An interner keeps the texts that it was given, each once, in the order in which
they first came; the symbol of a text is its place in that order.  Texts are
never removed, so a symbol keeps its text for good.

To find the place of a text quickly there is an index.  It is a cache: it can be
released when no more texts are expected, and the next text rebuilds it.  So
`texts` is the whole meaning of an interner, and nothing but `indexed` depends
on whether the index is held (`resolve?_release`, `size_release`).

The number of a symbol has 32 bits.  A text that would need a larger one is refused
(`intern?`); the refusal keeps the texts, but the index has been rebuilt by then.
-/
import Lexis.Symbol
import Std.Data.HashMap

namespace Lexis

set_option autoImplicit false

/-- Why an interner could not answer. -/
inductive InternerError where
  | full (count : Nat)
  | notIssued (symbol : Symbol)
deriving DecidableEq

def InternerError.message : InternerError → String
  | .full count =>
      "symbol pool exceeded capacity: " ++ toString count ++ " strings, max is " ++
        toString Symbol.maxId
  | .notIssued symbol => symbol.describe ++ " was not issued by this symbol pool"

structure Interner where
  /-- Every text, at the place that is its symbol. -/
  texts : Array String
  /-- The symbol of every text, unless it was released. -/
  index : Option (Std.HashMap String Symbol)

namespace Interner

def empty : Interner := ⟨#[], some ∅⟩

def size (n : Interner) : Nat := n.texts.size

def isEmpty (n : Interner) : Bool := n.size == 0

/-- Whether the index is held. -/
def indexed (n : Interner) : Bool := n.index.isSome

/-- The index of a list of texts, the first of which has the number `first`.  The numbers
have 32 bits, and their counter steps once more behind the last text.  At exactly 2^32 - 1
texts that step leaves the range: the counter wraps around and the index is still this one,
unless overflow is checked. -/
def indexFrom (first : Nat) (texts : List String) : Std.HashMap String Symbol :=
  (texts.zipIdx first).foldl (fun index (text, id) => index.insert text ⟨id⟩) ∅

/-- The index that is held, or else the one that the texts give. -/
def lookup (n : Interner) : Std.HashMap String Symbol :=
  n.index.getD (indexFrom 0 n.texts.toList)

/-- Holds the index, which is rebuilt where it was released. -/
def reindex (n : Interner) : Interner :=
  { n with index := some n.lookup }

/-- The symbol of a text, which is added when it is new.  The index is held
afterwards.  No number is too large here; `intern?` keeps to 32 bits. -/
def intern (text : String) : Interner → Symbol × Interner
  | ⟨texts, index⟩ =>
    let index := match index with
      | some held => held
      | none => indexFrom 0 texts.toList
    match index[text]? with
    | some symbol => (symbol, ⟨texts, some index⟩)
    | none =>
        let symbol : Symbol := ⟨texts.size⟩
        (symbol, ⟨texts.push text, some (index.insert text symbol)⟩)

/-- As `intern`, but a new text is refused when its symbol needs more than 32 bits.  The
index is held afterwards in any case. -/
def intern? (text : String) (n : Interner) : Except InternerError Symbol × Interner :=
  if n.lookup.contains text || n.size ≤ Symbol.maxId then
    let (symbol, grown) := n.intern text
    (.ok symbol, grown)
  else (.error (.full n.size), n.reindex)

/-- Interns every text in turn. -/
def ofTexts (texts : List String) : Interner :=
  texts.foldl (fun n text => (n.intern text).2) empty

/-- The text of a symbol, if the symbol was issued here. -/
def resolve? (n : Interner) (symbol : Symbol) : Option String :=
  n.texts[symbol.id]?

/-- The text of a symbol that must have been issued here. -/
def resolve (n : Interner) (symbol : Symbol) : Except InternerError String :=
  match n.resolve? symbol with
  | some text => .ok text
  | none => .error (.notIssued symbol)

/-- The text of a symbol; one that was not issued here has none. -/
def text (n : Interner) (symbol : Symbol) : String :=
  (n.resolve? symbol).getD ""

/-- Lets the index go. -/
def release (n : Interner) : Interner :=
  { n with index := none }

/-! ## Laws -/

@[simp] theorem resolve?_release (n : Interner) (symbol : Symbol) :
    n.release.resolve? symbol = n.resolve? symbol := rfl

@[simp] theorem size_release (n : Interner) : n.release.size = n.size := rfl

@[simp] theorem indexed_release (n : Interner) : n.release.indexed = false := rfl

@[simp] theorem indexed_intern (text : String) (n : Interner) :
    (n.intern text).2.indexed = true := by
  unfold intern
  simp only
  split <;> rfl

/-- Texts are only ever added at the end. -/
theorem texts_intern (text : String) (n : Interner) :
    (n.intern text).2.texts = n.texts ∨ (n.intern text).2.texts = n.texts.push text := by
  unfold intern
  simp only
  split
  · exact .inl rfl
  · exact .inr rfl

/-- A symbol keeps its text. -/
theorem resolve?_intern_of_eq_some {n : Interner} {symbol : Symbol} {held : String}
    (known : n.resolve? symbol = some held) (text : String) :
    (n.intern text).2.resolve? symbol = some held := by
  unfold resolve? at *
  rcases texts_intern text n with same | added
  · rw [same, known]
  · obtain ⟨inside, _⟩ := Array.getElem?_eq_some_iff.mp known
    rw [added, Array.getElem?_push, if_neg (by omega), known]

end Interner

end Lexis
