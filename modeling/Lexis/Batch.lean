/-
# Lexis.Batch -- lexing several files in one run

A run reads every file before it lexes any, and the first that cannot be read
is its error; then nothing is written.  All files share one interner, which is
released before anything is printed, since printing only resolves symbols.

What is written is a chapter for each file, in the order of the settings -- its
diagnostics, its listing and its time, as far as they are wanted -- and then one
summary for all of them.  The time of a file is the one thing that the sources do
not determine, so its text comes from outside.

The files are lexed in the order of the settings even where the settings leave
the order open: another order gives other symbols, and symbols are not written,
only their texts.
-/
import Lexis.Arguments
import Lexis.Listing
import Lexis.Scanner

namespace Lexis

set_option autoImplicit false

/-- What a run covered. -/
structure Totals where
  files : Nat
  tokens : Nat
  errors : Nat
deriving DecidableEq

def Totals.hasErrors (t : Totals) : Bool := 0 < t.errors

structure Outcome where
  totals : Totals
  output : List UInt8
deriving DecidableEq

namespace Batch

/-- A lexed file, before anything about it is written. -/
structure Entry where
  source : Source
  lexed : Lexed
  backlog : Backlog

/-- Lexes one file. -/
def lexOne (source : Source) (names : Interner) : Entry × Interner :=
  let (lexed, backlog, names) := source.lex Backlog.empty names
  (⟨source, lexed, backlog⟩, names)

/-- Lexes files one after another with the same names. -/
def lexAll : List Source → Interner → List Entry × Interner
  | [], names => ([], names)
  | source :: rest, names =>
      let (entry, names) := lexOne source names
      let (entries, names) := lexAll rest names
      (entry :: entries, names)

/-- Reads every file. -/
def load (files : FileSystem) : List String → Except SourceError (List Source)
  | [] => .ok []
  | name :: rest =>
      match Source.read files name with
      | .error e => .error e
      | .ok source => (load files rest).map (source :: ·)

/-- What is written about one file. -/
def chapter (settings : Settings) (colors : Bool) (names : Interner) (time : Source → String)
    (entry : Entry) : List UInt8 :=
  (entry.backlog.replay entry.source (Terminal.blank colors)).output ++
    (if settings.listing then Listing.render names entry.source entry.lexed.tokens else []) ++
    (if settings.benchmark then
      Utf8.encode ("info: " ++ entry.source.name ++ ": " ++ time entry.source ++ "\n")
    else [])

/-- The sum of a number of each entry. -/
def total (number : Entry → Nat) : List Entry → Nat
  | [] => 0
  | entry :: rest => number entry + total number rest

def totals (entries : List Entry) : Totals where
  files := entries.length
  tokens := total (fun entry => entry.lexed.tokens.length) entries
  errors := total (fun entry => entry.lexed.errors) entries

/-- What is written about lexed files. -/
def report (settings : Settings) (colors : Bool) (names : Interner) (time : Source → String)
    (entries : List Entry) : Outcome :=
  let totals := totals entries
  ⟨totals,
    entries.flatMap (chapter settings colors names time) ++ Summary.render colors totals.errors⟩

/-- Lexes the files of the settings. -/
def run (settings : Settings) (files : FileSystem) (isTerminal : Bool)
    (time : Source → String) : Except SourceError Outcome :=
  match load files settings.files with
  | .error e => .error e
  | .ok sources =>
      let (entries, names) := lexAll sources .empty
      .ok (report settings (settings.color.colored isTerminal) names.release time entries)

end Batch

end Lexis
