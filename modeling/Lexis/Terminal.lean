/-
# Lexis.Terminal -- diagnostics as a reader sees them

A diagnostic is three lines: the place and the message, the line of the source
byte for byte, and a caret below the column.  Colours wrap the place, the caret
line and the word that opens a summary, and change nothing else.  A terminal is
the sink that writes this form at once.
-/
import Lexis.Diagnostic
import Lexis.Line
import Lexis.Text.Utf8

namespace Lexis

set_option autoImplicit false

/-! ## Colours -/

inductive ColorChoice where
  /-- Colours where the output is a terminal. -/
  | auto
  | always
  | never
deriving DecidableEq

def ColorChoice.colored (choice : ColorChoice) (isTerminal : Bool) : Bool :=
  match choice with
  | .auto => isTerminal
  | .always => true
  | .never => false

inductive Style where
  | place | fault | marker
deriving DecidableEq

/-- The control sequence that starts the style: bold, bold red, bold green. -/
def Style.code : Style → String
  | .place => "\x1b[1m"
  | .fault => "\x1b[1;31m"
  | .marker => "\x1b[1;32m"

/-- The control sequence that ends every style. -/
def Style.reset : String := "\x1b[0m"

/-- Bytes in a style, if there are colours. -/
def Style.paint (style : Style) (colors : Bool) (bytes : List UInt8) : List UInt8 :=
  if colors then Utf8.encode style.code ++ bytes ++ Utf8.encode Style.reset else bytes

/-! ## Rendering -/

/-- The place of a diagnostic, with the name of its source. -/
def Diagnostic.place (d : Diagnostic) (source : Source) : String :=
  source.name ++ ":" ++ d.position.text ++ ":"

def Diagnostic.render (d : Diagnostic) (colors : Bool) (source : Source) : List UInt8 :=
  let line := source.lineAt d.position.offset
  Style.place.paint colors (Utf8.encode (d.place source)) ++
    Utf8.encode (" " ++ d.message ++ "\n") ++
    line ++ [Byte.lineFeed] ++
    Style.marker.paint colors (Line.marker line d.position.column) ++ [Byte.lineFeed]

/-- What follows the word `error` when so many errors were reported. -/
def Summary.tail (count : Nat) : String :=
  if count = 1 then ": aborting due to previous error\n"
  else ": aborting due to " ++ toString count ++ " previous errors\n"

/-- The last line of a run, which a run without errors does not have. -/
def Summary.render (colors : Bool) (count : Nat) : List UInt8 :=
  if count = 0 then []
  else Style.fault.paint colors (Utf8.encode "error") ++ Utf8.encode (Summary.tail count)

/-! ## Terminal -/

structure Terminal where
  colors : Bool
  written : Array UInt8
deriving DecidableEq

namespace Terminal

/-- A terminal on which nothing is written yet. -/
def blank (colors : Bool) : Terminal := ⟨colors, #[]⟩

def write (t : Terminal) (bytes : List UInt8) : Terminal :=
  { t with written := t.written ++ bytes }

instance : Sink Terminal where
  emit source d t := t.write (d.render t.colors source)
  flush t := t
  summarize count t := t.write (Summary.render t.colors count)

/-- What is written, in order. -/
def output (t : Terminal) : List UInt8 := t.written.toList

@[simp] theorem output_write (t : Terminal) (bytes : List UInt8) :
    (t.write bytes).output = t.output ++ bytes := by
  simp [write, output]

@[simp] theorem colors_write (t : Terminal) (bytes : List UInt8) :
    (t.write bytes).colors = t.colors := rfl

@[simp] theorem output_emit (source : Source) (d : Diagnostic) (t : Terminal) :
    (Sink.emit source d t).output = t.output ++ d.render t.colors source :=
  output_write _ _

@[simp] theorem colors_emit (source : Source) (d : Diagnostic) (t : Terminal) :
    (Sink.emit source d t).colors = t.colors := rfl

theorem output_emitAll (source : Source) (ds : List Diagnostic) (t : Terminal) :
    (Sink.emitAll source ds t).output =
      t.output ++ ds.flatMap fun d => d.render t.colors source := by
  induction ds generalizing t with
  | nil => simp
  | cons d rest ih => simp [ih]

theorem output_summarize (count : Nat) (t : Terminal) :
    (Sink.summarize count t).output = t.output ++ Summary.render t.colors count :=
  output_write _ _

end Terminal

end Lexis
