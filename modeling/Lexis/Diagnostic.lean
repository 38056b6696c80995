/-
# Lexis.Diagnostic -- messages about places, and where they go

A diagnostic is a message about one position of one source.  A sink takes
diagnostics; `Sink.emitAll` gives it several, in order.  A backlog is the sink
that keeps them: what was emitted into it can be emitted again into another sink
(`replay`), and it keeps neither flushes nor summaries.  A sink can be lent, so that
its owner has it back when the borrower is done (`Lent`).

A reporter stands before a sink, for one source, and counts what it passes on;
reporting never fails and never stops the caller.
-/
import Lexis.Position
import Lexis.Source

namespace Lexis

set_option autoImplicit false

structure Diagnostic where
  position : Position
  message : String
deriving DecidableEq

def Diagnostic.text (d : Diagnostic) : String :=
  d.position.text ++ ": " ++ d.message

/-! ## Sinks -/

/-- Where diagnostics go.  A sink gets the source with each diagnostic, so that
it can show the line that the diagnostic is about. -/
class Sink (σ : Type) where
  emit : Source → Diagnostic → σ → σ
  /-- Lets out what is held back. -/
  flush : σ → σ
  /-- Closes a run in which so many errors were reported. -/
  summarize : Nat → σ → σ

def Sink.emitAll {σ : Type} [Sink σ] (source : Source) (ds : List Diagnostic) (sink : σ) : σ :=
  ds.foldl (fun sink d => Sink.emit source d sink) sink

@[simp] theorem Sink.emitAll_nil {σ : Type} [Sink σ] (source : Source) (sink : σ) :
    Sink.emitAll source [] sink = sink := rfl

@[simp] theorem Sink.emitAll_cons {σ : Type} [Sink σ] (source : Source) (d : Diagnostic)
    (ds : List Diagnostic) (sink : σ) :
    Sink.emitAll source (d :: ds) sink = Sink.emitAll source ds (Sink.emit source d sink) := rfl

theorem Sink.emitAll_append {σ : Type} [Sink σ] (source : Source) (front back : List Diagnostic)
    (sink : σ) :
    Sink.emitAll source (front ++ back) sink =
      Sink.emitAll source back (Sink.emitAll source front sink) := by
  simp [Sink.emitAll]

/-- One operation on a sink, with its arguments. -/
inductive Sink.Call where
  | emit (d : Diagnostic)
  | emitAll (ds : List Diagnostic)
  | flush
  | summarize (count : Nat)

def Sink.perform {σ : Type} [Sink σ] (source : Source) (sink : σ) : Sink.Call → σ
  | .emit d => Sink.emit source d sink
  | .emitAll ds => Sink.emitAll source ds sink
  | .flush => Sink.flush sink
  | .summarize count => Sink.summarize count sink

/-- A sink that is lent: what the borrower gives it goes to the sink behind it. -/
structure Lent (σ : Type) where
  behind : σ

instance {σ : Type} [Sink σ] : Sink (Lent σ) where
  emit source d l := ⟨Sink.emit source d l.behind⟩
  flush l := ⟨Sink.flush l.behind⟩
  summarize count l := ⟨Sink.summarize count l.behind⟩

/-! ## Backlog -/

/-- Diagnostics kept for later, in the order in which they came. -/
structure Backlog where
  entries : Array Diagnostic
deriving DecidableEq

namespace Backlog

def empty : Backlog := ⟨#[]⟩

def size (b : Backlog) : Nat := b.entries.size

def isEmpty (b : Backlog) : Bool := b.size == 0

def toList (b : Backlog) : List Diagnostic := b.entries.toList

instance : Sink Backlog where
  emit _ d b := ⟨b.entries.push d⟩
  flush b := b
  summarize _ b := b

/-- Emits every entry, in order. -/
def replay {σ : Type} [Sink σ] (b : Backlog) (source : Source) (sink : σ) : σ :=
  Sink.emitAll source b.toList sink

@[simp] theorem toList_emit (source : Source) (d : Diagnostic) (b : Backlog) :
    (Sink.emit source d b).toList = b.toList ++ [d] := by
  simp [Sink.emit, toList]

theorem toList_emitAll (source : Source) (ds : List Diagnostic) (b : Backlog) :
    (Sink.emitAll source ds b).toList = b.toList ++ ds := by
  induction ds generalizing b with
  | nil => simp
  | cons d rest ih => simp [ih]

end Backlog

/-! ## Reporter -/

structure Reporter (σ : Type) where
  source : Source
  sink : σ
  /-- How many diagnostics were passed on. -/
  count : Nat

namespace Reporter

def ofSource {σ : Type} (source : Source) (sink : σ) : Reporter σ := ⟨source, sink, 0⟩

def report {σ : Type} [Sink σ] (r : Reporter σ) (position : Position) (message : String) :
    Reporter σ :=
  { r with sink := Sink.emit r.source ⟨position, message⟩ r.sink, count := r.count + 1 }

end Reporter

end Lexis
