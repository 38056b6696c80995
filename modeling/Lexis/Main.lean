/-
# Lexis.Main -- the executable

Reads the files that the arguments name, up to the first that cannot be read,
and the clock if times are wanted; everything else is `CommandLine.respond`.
-/
import Lexis.CommandLine
import Lexis.Elapsed
import Lexis.FileTree

namespace Lexis.Main

set_option autoImplicit false

/-- The words for an error number of the system, which may come negated. -/
def systemError (code : UInt32) (details : String) : ReadError :=
  match if code < 0x80000000 then code else -code with
  | 20 => FileTree.notADirectory
  | 21 => FileTree.isDirectory
  | 36 => FileTree.nameTooLong
  | number => .other (details ++ " (os error " ++ toString number ++ ")")

/-- Why a file was not read. -/
def cause : IO.Error → ReadError
  | .noFileOrDirectory .. => .notFound
  | .permissionDenied .. => .permissionDenied
  | .otherError code details
  | .inappropriateType _ code details
  | .illegalOperation code details
  | .invalidArgument _ code details
  | .resourceExhausted _ code details
  | .unsupportedOperation code details
  | .hardwareFault code details
  | .interrupted _ code details
  | .noSuchThing _ code details => systemError code details
  | e => .other (toString e)

def readFile (name : String) : IO (Except ReadError (List UInt8)) := do
  try
    return .ok (← IO.FS.readBinFile name).toList
  catch e =>
    return .error (cause e)

/-- What the files hold, up to the first that cannot be read. -/
def readFiles : List String → IO (List (String × Except ReadError (List UInt8)))
  | [] => return []
  | name :: rest => do
      let content ← readFile name
      match content with
      | .error _ => return [(name, content)]
      | .ok _ => return (name, content) :: (← readFiles rest)

/-- How long lexing a source takes. -/
def measure (source : Source) : IO Elapsed := do
  let before ← IO.monoNanosNow
  let _ ← IO.lazyPure fun _ => source.lex Backlog.empty Interner.empty
  let after ← IO.monoNanosNow
  return ⟨after - before⟩

/-- What to tell about the time of each source. -/
def times (files : FileSystem) (settings : Settings) : IO (List (String × String)) := do
  if settings.benchmark then
    match Batch.load files settings.files with
    | .error _ => return []
    | .ok sources =>
        sources.mapM fun source => do
          return (source.name, (← measure source).report source.length)
  else return []

def respond (args : List String) (isTerminal : Bool) : IO Response := do
  match Request.ofArguments args with
  | .ok (.lex settings) =>
      let contents ← readFiles settings.files
      let files : FileSystem := fun name => (contents.lookup name).getD (.error .notFound)
      let times ← times files settings
      return CommandLine.respond args files isTerminal fun source =>
        (times.lookup source.name).getD ""
  | _ => return CommandLine.respond args (fun _ => .error .notFound) isTerminal fun _ => ""

end Lexis.Main

def main (args : List String) : IO UInt32 := do
  let stdout ← IO.getStdout
  let stderr ← IO.getStderr
  let response ← Lexis.Main.respond args (← stdout.isTty)
  stdout.write ⟨response.stdout.toArray⟩
  stdout.flush
  stderr.write ⟨response.stderr.toArray⟩
  stderr.flush
  return response.code
