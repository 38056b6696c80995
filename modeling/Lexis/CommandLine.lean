/-
# Lexis.CommandLine -- the command `lm`

The command reads its arguments, lexes the files that they name, and answers
with an exit code and with what it writes to its two outputs.  The code is one
when the arguments are wrong, a file cannot be read, or a file has a lexical
error; only the first two are told on the error output.
-/
import Lexis.Batch

namespace Lexis

set_option autoImplicit false

structure Response where
  code : UInt32
  stdout : List UInt8
  stderr : List UInt8
deriving DecidableEq

namespace CommandLine

def version : String := "0.1.0"

def usage : String :=
  "Lm Compiler\n" ++
  "\n" ++
  "Usage: lm [options] <file>...\n" ++
  "\n" ++
  "Options:\n" ++
  "  -h, --help           Show this help message\n" ++
  "  -v, --version        Show version information\n" ++
  "      --benchmark      Time lexing of each file and print throughput\n" ++
  "      --tokens         Print every token with its position\n" ++
  "      --parallel       Lex files concurrently\n" ++
  "      --color=<when>   Color diagnostics: auto, always, never\n" ++
  "\n" ++
  "Environment:\n" ++
  "  RUST_LOG             Enable debug logging to stderr (e.g. RUST_LOG=debug)\n"

def success (text : String) : Response := ⟨0, Utf8.encode text, []⟩

def failure (text : String) : Response := ⟨1, [], Utf8.encode ("error: " ++ text ++ "\n")⟩

/-- The answer to the arguments, without the name of the command. -/
def respond (args : List String) (files : FileSystem) (isTerminal : Bool)
    (time : Source → String) : Response :=
  if args = [] then success usage
  else
    match Request.ofArguments args with
    | .error e => failure (e.message ++ "\nRun 'lm --help' for usage.")
    | .ok .help => success usage
    | .ok .version => success ("lm " ++ version ++ "\n")
    | .ok (.lex settings) =>
        match Batch.run settings files isTerminal time with
        | .error e => failure e.message
        | .ok outcome => ⟨if outcome.totals.hasErrors then 1 else 0, outcome.output, []⟩

end CommandLine

end Lexis
