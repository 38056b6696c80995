/-
# Lexis.Interner.Call -- interner operations as data

A call is one operation on an interner, with its arguments; lexing a source is
one of them, since it interns the identifiers of the source.  A call through a
handle reaches the interner that the handle names.
-/
import Lexis.Interner.Handles
import Lexis.Scanner

namespace Lexis.Interner

set_option autoImplicit false

inductive Call where
  /-- Interning that stops where there is no symbol left. -/
  | intern (text : String)
  /-- Interning that refuses a text where there is no symbol left. -/
  | tryIntern (text : String)
  | tryResolve (symbol : Symbol)
  /-- Resolving that stops at a symbol that was not issued. -/
  | resolve (symbol : Symbol)
  | release
  | lex (source : Source)

inductive Answer where
  | nothing
  | symbol (s : Symbol)
  | text (t : Option String)
  /-- The error of a refusal, or the one with which `intern` or `resolve` stops. -/
  | error (e : InternerError)
  | lexed (l : Lexed)

def Answer.ofIntern? : Except InternerError Symbol → Answer
  | .ok issued => .symbol issued
  | .error e => .error e

def perform (n : Interner) : Call → Answer × Interner
  | .intern text | .tryIntern text =>
      let (result, n) := n.intern? text
      (.ofIntern? result, n)
  | .tryResolve symbol => (.text (n.resolve? symbol), n)
  | .resolve symbol =>
      match n.resolve symbol with
      | .ok text => (.text (some text), n)
      | .error e => (.error e, n)
  | .release => (.nothing, n.release)
  | .lex source =>
      let (lexed, _, n) := source.lex Backlog.empty n
      (.lexed lexed, n)

end Lexis.Interner

namespace Lexis.Handles

set_option autoImplicit false

/-- A call through a handle. -/
def perform (hs : Handles) (h : Handle) (call : Interner.Call) : Option Interner.Answer × Handles :=
  match hs.at? h with
  | none => (none, hs)
  | some n =>
      let (answer, n) := n.perform call
      (some answer, hs.put h n)

end Lexis.Handles
