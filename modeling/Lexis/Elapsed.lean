/-
# Lexis.Elapsed -- how long lexing took, and how fast it was

A time is told in the largest of seconds, milli-, micro- and nanoseconds that
it reaches, with every digit that is not a trailing zero.  A speed is told in
MiB per second with two places, rounded to the nearest.
-/

namespace Lexis

set_option autoImplicit false

structure Elapsed where
  nanoseconds : Nat

namespace Elapsed

/-- The digits after the point of a number of so many parts to the whole, where
`places` digits count the parts. -/
def fraction (places parts : Nat) : String :=
  let digits := (Nat.toDigits 10 parts).leftpad places '0'
  match (digits.reverse.dropWhile (· == '0')).reverse with
  | [] => ""
  | kept => String.ofList ('.' :: kept)

/-- The time in a unit of `size` nanoseconds, a power of ten with `places` zeros. -/
def inUnit (size places : Nat) (unit : String) (e : Elapsed) : String :=
  toString (e.nanoseconds / size) ++ fraction places (e.nanoseconds % size) ++ unit

def text (e : Elapsed) : String :=
  if 1000000000 ≤ e.nanoseconds then e.inUnit 1000000000 9 "s"
  else if 1000000 ≤ e.nanoseconds then e.inUnit 1000000 6 "ms"
  else if 1000 ≤ e.nanoseconds then e.inUnit 1000 3 "µs"
  else e.inUnit 1 0 "ns"

/-- Hundredths of a MiB per second; a time of zero counts as one nanosecond. -/
def speed (e : Elapsed) (bytes : Nat) : Nat :=
  let scale := 1048576 * if e.nanoseconds = 0 then 1 else e.nanoseconds
  (2 * 100000000000 * bytes + scale) / (2 * scale)

/-- What a run tells about the time of a source with so many bytes. -/
def report (e : Elapsed) (bytes : Nat) : String :=
  let speed := e.speed bytes
  e.text ++ " - " ++ toString (speed / 100) ++ "." ++
    String.ofList ((Nat.toDigits 10 (speed % 100)).leftpad 2 '0') ++ " MiB/s"

end Elapsed

end Lexis
