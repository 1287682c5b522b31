import AwkToPython.Text.Integer

/-!
# From decimal text to a binary fraction

A decimal numeral is read exactly and rounded once, to the nearest binary
fraction with a significand of fifty-three bits, ties to the even significand.
Magnitudes that are too large become infinite, those that are too small zero.
-/
namespace AwkToPython.Decimal

/-- A numeral: the value is `digits * 10 ^ scale`, negated if `negative`. -/
structure Numeral where
  negative : Bool
  digits : Nat
  scale : Int
deriving DecidableEq, Repr

/-- Split an exponent off: what follows `e` or `E` is an integer with a sign of
its own and at least one digit. -/
def exponent? : List Char → Option Int
  | [] => some 0
  | mark :: rest =>
    if mark = 'e' || mark = 'E' then
      match rest with
      | '+' :: digits => (Text.decimal? digits).map Int.ofNat
      | '-' :: digits => (Text.decimal? digits).map fun n => -(n : Int)
      | digits => (Text.decimal? digits).map Int.ofNat
    else none

/-- Digits with an optional point among them, at least one digit in all. -/
def unsignedNumeral? (negative : Bool) (cs : List Char) : Option Numeral :=
  let whole := cs.takeWhile Char.isDigit
  let behind := cs.dropWhile Char.isDigit
  let (fraction, tail) := match behind with
    | '.' :: rest => (rest.takeWhile Char.isDigit, rest.dropWhile Char.isDigit)
    | rest => ([], rest)
  if whole.isEmpty && fraction.isEmpty then none
  else (exponent? tail).map fun e =>
    { negative, digits := Text.digitsValue (whole ++ fraction), scale := e - fraction.length }

def numeral? : List Char → Option Numeral
  | '+' :: rest => unsignedNumeral? false rest
  | '-' :: rest => unsignedNumeral? true rest
  | cs => unsignedNumeral? false cs

/-- A magnitude: `significand * 2 ^ exponent`, with zero as significand zero. -/
inductive Magnitude where
  | finite (significand : Nat) (exponent : Int)
  | infinite
deriving DecidableEq, Repr

def precision : Nat := 53

def leastExponent : Int := -1074

def greatestExponent : Int := 971

/-- The quotient rounded to the nearest integer, a tie to the even one. -/
def roundQuotient (num den : Nat) : Nat :=
  let q := num / den
  let r := num % den
  if 2 * r < den then q
  else if den < 2 * r then q + 1
  else q + q % 2

/-- `num / den` in units of `2 ^ q`, as a fraction of natural numbers. -/
def inUnits (num den : Nat) (q : Int) : Nat × Nat :=
  if 0 ≤ q then (num, den * Nat.pow 2 q.toNat) else (num * Nat.pow 2 (-q).toNat, den)

/-- The exponent at which `num / den` has a significand of `precision` bits, or
the least exponent if that one is lower. -/
def unitExponent (num den : Nat) : Int :=
  let guess : Int := (num.log2 : Int) - den.log2 - precision
  let scaled := inUnits num den guess
  let q := if scaled.1 / scaled.2 < Nat.pow 2 precision then guess else guess + 1
  max q leastExponent

def nearest (num den : Nat) : Magnitude :=
  let q := unitExponent num den
  let scaled := inUnits num den q
  let m := roundQuotient scaled.1 scaled.2
  let (m, q) := if m = Nat.pow 2 precision then (Nat.pow 2 (precision - 1), q + 1) else (m, q)
  if greatestExponent < q then .infinite else .finite m q

def digitCount (n : Nat) : Nat := (Nat.toDigits 10 n).length

/-- The magnitude nearest to a numeral. Numerals of three hundred and eleven or
more digits before the point are infinite and those below `10 ^ -330` are zero,
so the powers computed here stay small whatever the exponent says. -/
def Numeral.magnitude (n : Numeral) : Magnitude :=
  if n.digits = 0 then .finite 0 0
  else
    let places : Int := digitCount n.digits + n.scale
    if 310 < places then .infinite
    else if places < -330 then .finite 0 0
    else if 0 ≤ n.scale then nearest (n.digits * Nat.pow 10 n.scale.toNat) 1
    else nearest n.digits (Nat.pow 10 (-n.scale).toNat)

end AwkToPython.Decimal
