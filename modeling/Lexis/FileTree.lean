/-
# Lexis.FileTree -- files and directories held in memory

A tree lists files and directories by their paths below its root; the directories
on the way to an entry exist as well.  A name is looked up one component at a
time, from the root: an empty component or a dot stays, two dots go up, and any
other component must be an entry of the directory reached so far.  Every
component needs a directory to start from, so a slash after a plain file is an
error.  What lies above the root is a directory of which nothing is known.

`FileTree.files` is the tree as a file system.
-/
import Lexis.Source
import Lexis.Text.Utf8

namespace Lexis

set_option autoImplicit false

namespace FileTree

/-- Why the system refuses to read. -/
def isDirectory : ReadError := .other "Is a directory (os error 21)"

def notADirectory : ReadError := .other "Not a directory (os error 20)"

def nameTooLong : ReadError := .other "File name too long (os error 36)"

def nulInName : ReadError := .other "file name contained an unexpected NUL byte"

/-- The longest component, in bytes. -/
def maxComponent : Nat := 255

/-- The longest name, in bytes. -/
def maxName : Nat := 4095

end FileTree

inductive Node where
  | file (bytes : List UInt8)
  | directory
deriving DecidableEq

/-- Entries by path; of two entries with one path the later counts. -/
structure FileTree where
  entries : List (List String × Node)

namespace FileTree

/-- The components of a name. -/
def components (name : String) : List String :=
  (name.splitOn "/").filter fun part => part != "" && part != "."

/-- Adds a file or directory. -/
def add (tree : FileTree) (name : String) (node : Node) : FileTree :=
  ⟨(components name, node) :: tree.entries⟩

/-- What is at a path: an entry, or a directory on the way to one. -/
def node? (tree : FileTree) (path : List String) : Option Node :=
  match tree.entries.lookup path with
  | some node => some node
  | none =>
      if path = [] ∨ tree.entries.any fun (entry, _) => path.isPrefixOf entry then some .directory
      else none

/-- How far a lookup has come: to a path, or out of the tree. -/
inductive Spot where
  | inside (path : List String)
  | outside

/-- What is at a spot. -/
def at? (tree : FileTree) : Spot → Option Node
  | .inside path => tree.node? path
  | .outside => some .directory

def step (tree : FileTree) (spot : Spot) (part : String) : Except ReadError Spot :=
  match tree.at? spot with
  | none => .error .notFound
  | some (.file _) => .error notADirectory
  | some .directory =>
      if part = "" ∨ part = "." then .ok spot
      else if part = ".." then
        match spot with
        | .inside (first :: rest) => .ok (.inside (first :: rest).dropLast)
        | _ => .ok .outside
      else if maxComponent < part.utf8ByteSize then .error nameTooLong
      else
        match spot with
        | .outside => .error .notFound
        | .inside path =>
            match tree.node? (path ++ [part]) with
            | some _ => .ok (.inside (path ++ [part]))
            | none => .error .notFound

def walk (tree : FileTree) (spot : Spot) : List String → Except ReadError Spot
  | [] => .ok spot
  | part :: rest =>
      match tree.step spot part with
      | .ok spot => tree.walk spot rest
      | .error e => .error e

/-- Reads the file of a name. -/
def read (tree : FileTree) (name : String) : Except ReadError (List UInt8) :=
  if name = "" then .error .notFound
  else if name.toList.contains '\x00' then .error nulInName
  else if maxName < name.utf8ByteSize then .error nameTooLong
  else
    let parts := name.splitOn "/"
    let start := if parts.head? = some "" then Spot.outside else Spot.inside []
    match tree.walk start parts with
    | .error e => .error e
    | .ok spot =>
        match tree.at? spot with
        | some (.file bytes) => .ok bytes
        | some .directory => .error isDirectory
        | none => .error .notFound

/-- The tree as a file system. -/
def files (tree : FileTree) : FileSystem := tree.read

end FileTree

end Lexis
