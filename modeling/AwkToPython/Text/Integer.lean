/-!
# Integers of sixty-four bits as text

An integer text is a run of decimal digits after at most one sign. The unsigned
form admits only a plus sign. A value outside the range of the form is refused.
-/
namespace AwkToPython.Text

def digitsValue (cs : List Char) : Nat :=
  cs.foldl (fun value c => value * 10 + (c.toNat - '0'.toNat)) 0

def decimal? (cs : List Char) : Option Nat :=
  if !cs.isEmpty && cs.all Char.isDigit then some (digitsValue cs) else none

/-- An unsigned integer below `2 ^ 64`, with an optional plus sign. -/
def unsigned64? (s : String) : Option Nat :=
  let digits := match s.toList with
    | '+' :: rest => rest
    | cs => cs
  (decimal? digits).filter (· < Nat.pow 2 64)

def leastSigned64 : Int := -Int.ofNat (Nat.pow 2 63)

def greatestSigned64 : Int := Int.ofNat (Nat.pow 2 63) - 1

/-- A signed integer from `-2 ^ 63` up to `2 ^ 63 - 1`, with an optional sign. -/
def signed64? (s : String) : Option Int :=
  let value : Option Int := match s.toList with
    | '+' :: rest => (decimal? rest).map Int.ofNat
    | '-' :: rest => (decimal? rest).map fun n => -(n : Int)
    | cs => (decimal? cs).map Int.ofNat
  value.filter fun n => leastSigned64 ≤ n && n ≤ greatestSigned64

def saturate64 (n : Int) : Int := max leastSigned64 (min n greatestSigned64)

/-- Hexadecimal digits, lower case, without leading zeros. -/
def hex (n : Nat) : String := String.ofList (Nat.toDigits 16 n)

end AwkToPython.Text
