/-
# Lexis.Vocabulary.Keyword -- the reserved words of Lm

A word is a keyword exactly when it is spelled like one: `ofText?` reads a word,
`lexeme` spells a keyword, and each undoes the other (`ofText?_eq_some_iff`).  A word
is only compared with the keywords of its length, and none is missed by that.
The constructors carry the ending `Kw`, since many of the words are reserved
here too.
-/

namespace Lexis

set_option autoImplicit false

inductive Keyword where
  | fnKw | mutKw | imutKw | retKw | moduleKw | importKw | structKw
  | localKw | matchKw | ifKw | elifKw | elseKw | breakKw | continueKw
  | forKw | letKw | loopKw | i8Kw | u8Kw | i16Kw | u16Kw
  | i32Kw | u32Kw | i64Kw | u64Kw | f32Kw | f64Kw | longKw
  | ulongKw | charKw | boolKw | trueKw | falseKw
deriving DecidableEq

namespace Keyword

/-- Every keyword. -/
def all : List Keyword :=
  [.fnKw, .mutKw, .imutKw, .retKw, .moduleKw, .importKw, .structKw, .localKw,
   .matchKw, .ifKw, .elifKw, .elseKw, .breakKw, .continueKw, .forKw, .letKw,
   .loopKw, .i8Kw, .u8Kw, .i16Kw, .u16Kw, .i32Kw, .u32Kw, .i64Kw,
   .u64Kw, .f32Kw, .f64Kw, .longKw, .ulongKw, .charKw, .boolKw, .trueKw,
   .falseKw]

/-- The spelling in a source. -/
def lexeme : Keyword → String
  | .fnKw => "fn"
  | .mutKw => "mut"
  | .imutKw => "imut"
  | .retKw => "ret"
  | .moduleKw => "module"
  | .importKw => "import"
  | .structKw => "struct"
  | .localKw => "local"
  | .matchKw => "match"
  | .ifKw => "if"
  | .elifKw => "elif"
  | .elseKw => "else"
  | .breakKw => "break"
  | .continueKw => "continue"
  | .forKw => "for"
  | .letKw => "let"
  | .loopKw => "loop"
  | .i8Kw => "i8"
  | .u8Kw => "u8"
  | .i16Kw => "i16"
  | .u16Kw => "u16"
  | .i32Kw => "i32"
  | .u32Kw => "u32"
  | .i64Kw => "i64"
  | .u64Kw => "u64"
  | .f32Kw => "f32"
  | .f64Kw => "f64"
  | .longKw => "long"
  | .ulongKw => "ulong"
  | .charKw => "char"
  | .boolKw => "bool"
  | .trueKw => "true"
  | .falseKw => "false"

/-- The name in a listing of tokens. -/
def label : Keyword → String
  | .fnKw => "Fn"
  | .mutKw => "Mut"
  | .imutKw => "Imut"
  | .retKw => "Ret"
  | .moduleKw => "Module"
  | .importKw => "Import"
  | .structKw => "Struct"
  | .localKw => "Local"
  | .matchKw => "Match"
  | .ifKw => "If"
  | .elifKw => "Elif"
  | .elseKw => "Else"
  | .breakKw => "Break"
  | .continueKw => "Continue"
  | .forKw => "For"
  | .letKw => "Let"
  | .loopKw => "Loop"
  | .i8Kw => "I8"
  | .u8Kw => "U8"
  | .i16Kw => "I16"
  | .u16Kw => "U16"
  | .i32Kw => "I32"
  | .u32Kw => "U32"
  | .i64Kw => "I64"
  | .u64Kw => "U64"
  | .f32Kw => "F32"
  | .f64Kw => "F64"
  | .longKw => "Long"
  | .ulongKw => "Ulong"
  | .charKw => "Char"
  | .boolKw => "Bool"
  | .trueKw => "True"
  | .falseKw => "False"

/-- The keyword that a word is, if it is one.  Only the words of its length are compared. -/
def ofText? (word : String) : Option Keyword :=
  match word.utf8ByteSize with
  | 2 =>
      match word with
      | "fn" => some .fnKw
      | "if" => some .ifKw
      | "i8" => some .i8Kw
      | "u8" => some .u8Kw
      | _ => none
  | 3 =>
      match word with
      | "mut" => some .mutKw
      | "ret" => some .retKw
      | "for" => some .forKw
      | "let" => some .letKw
      | "i16" => some .i16Kw
      | "u16" => some .u16Kw
      | "i32" => some .i32Kw
      | "u32" => some .u32Kw
      | "i64" => some .i64Kw
      | "u64" => some .u64Kw
      | "f32" => some .f32Kw
      | "f64" => some .f64Kw
      | _ => none
  | 4 =>
      match word with
      | "imut" => some .imutKw
      | "elif" => some .elifKw
      | "else" => some .elseKw
      | "loop" => some .loopKw
      | "long" => some .longKw
      | "char" => some .charKw
      | "bool" => some .boolKw
      | "true" => some .trueKw
      | _ => none
  | 5 =>
      match word with
      | "local" => some .localKw
      | "match" => some .matchKw
      | "break" => some .breakKw
      | "ulong" => some .ulongKw
      | "false" => some .falseKw
      | _ => none
  | 6 =>
      match word with
      | "module" => some .moduleKw
      | "import" => some .importKw
      | "struct" => some .structKw
      | _ => none
  | 8 =>
      match word with
      | "continue" => some .continueKw
      | _ => none
  | _ => none

theorem mem_all (k : Keyword) : k ∈ all := by
  cases k <;> decide

theorem ofText?_lexeme (k : Keyword) : ofText? k.lexeme = some k := by
  cases k <;> rfl

theorem lexeme_of_ofText? {word : String} {k : Keyword} (reads : ofText? word = some k) :
    k.lexeme = word := by
  unfold ofText? at reads
  -- One case for each length, and in it one for each word of that length.
  split at reads
  all_goals first
    | cases reads
    | split at reads <;> cases reads <;> rfl

theorem ofText?_eq_some_iff {word : String} {k : Keyword} :
    ofText? word = some k ↔ k.lexeme = word :=
  ⟨lexeme_of_ofText?, fun spelled => spelled ▸ ofText?_lexeme k⟩

end Keyword

end Lexis
