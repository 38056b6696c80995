/-
# Lexis.Arguments -- what the arguments of the command ask for

Arguments are read from left to right.  Each is a request for help or for the
version, a flag, a choice of colours, or the name of a file; what starts with a
dash is no name, except a single dash (`Argument.ofText`).  The first argument
that asks for help or for the version, or that is wrong, settles the matter.
Otherwise the flags hold wherever they stand, the last choice of colours counts,
and each file is taken once, where it is first named.
-/
import Lexis.Terminal

namespace Lexis

set_option autoImplicit false

/-! ## Results -/

structure Settings where
  /-- The files to lex, in order and each once. -/
  files : List String := []
  /-- Tell how long each file took. -/
  benchmark : Bool := false
  /-- List every token. -/
  listing : Bool := false
  /-- Leave the order in which files are lexed open. -/
  parallel : Bool := false
  color : ColorChoice := .auto
deriving DecidableEq

inductive Request where
  | help
  | version
  | lex (settings : Settings)
deriving DecidableEq

inductive UsageError where
  | unknownOption (text : String)
  | invalidColor (value : String)
  | noInputFiles
deriving DecidableEq

def UsageError.message : UsageError → String
  | .unknownOption text => "unknown option '" ++ text ++ "'"
  | .invalidColor value =>
      "invalid value '" ++ value ++ "' for --color (expected auto, always, or never)"
  | .noInputFiles => "no input files"

/-! ## One argument -/

inductive Argument where
  | help
  | version
  | benchmark
  | listing
  | parallel
  | color (value : String)
  | unknown (text : String)
  | file (name : String)
deriving DecidableEq

/-- What follows a beginning of a text, if the text begins so. -/
def Argument.after? (start text : String) : Option String :=
  (start.toList.isPrefixOf? text.toList).map String.ofList

def Argument.ofText (text : String) : Argument :=
  match text with
  | "-h" | "--help" => .help
  | "-v" | "--version" => .version
  | "--benchmark" => .benchmark
  | "--tokens" => .listing
  | "--parallel" => .parallel
  | _ =>
      match after? "--color=" text with
      | some value => .color value
      | none =>
          if text.toList.head? = some '-' ∧ text ≠ "-" then .unknown text else .file text

def ColorChoice.ofText? (value : String) : Option ColorChoice :=
  match value with
  | "auto" => some .auto
  | "always" => some .always
  | "never" => some .never
  | _ => none

/-! ## All arguments -/

/-- A file named again keeps its first place. -/
def Settings.addFile (s : Settings) (name : String) : Settings :=
  if name ∈ s.files then s else { s with files := s.files ++ [name] }

/-- Reads on, with the settings of the arguments so far. -/
def Settings.read (s : Settings) : List String → Except UsageError Request
  | [] => if s.files = [] then .error .noInputFiles else .ok (.lex s)
  | arg :: rest =>
      match Argument.ofText arg with
      | .help => .ok .help
      | .version => .ok .version
      | .benchmark => Settings.read { s with benchmark := true } rest
      | .listing => Settings.read { s with listing := true } rest
      | .parallel => Settings.read { s with parallel := true } rest
      | .color value =>
          match ColorChoice.ofText? value with
          | some color => Settings.read { s with color } rest
          | none => .error (.invalidColor value)
      | .unknown text => .error (.unknownOption text)
      | .file name => Settings.read (s.addFile name) rest

/-- What the arguments ask for, without the name of the command. -/
def Request.ofArguments (args : List String) : Except UsageError Request :=
  Settings.read {} args

end Lexis
