/-
# Lexis.Symbol -- a name by its number

A symbol is the number that an interner gave to a text.  Symbols of one interner
are equal exactly when their texts are, so later stages compare numbers.
-/

namespace Lexis

set_option autoImplicit false

structure Symbol where
  id : Nat
deriving DecidableEq, Ord

namespace Symbol

/-- The highest number that a symbol may have: numbers fit in 32 bits. -/
def maxId : Nat := 4294967295

/-- A symbol as it is shown in descriptions of tokens. -/
def describe (s : Symbol) : String :=
  "Symbol(" ++ toString s.id ++ ")"

end Symbol

end Lexis
