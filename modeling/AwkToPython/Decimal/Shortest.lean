import AwkToPython.Decimal.Binary

/-!
# The fewest digits that read back

Every decimal strictly between the midpoints to a magnitude's two neighbours
reads back as that magnitude, and so do the midpoints themselves if its
significand is even. Of the decimals with the fewest digits in that interval the
one nearest to the magnitude is chosen, the upper one of two equally near.
-/
namespace AwkToPython.Decimal

/-- The interval of decimals that read back, as numerators over one denominator:
`low / den`, the value `mid / den`, and `high / den`. -/
structure Interval where
  low : Nat
  mid : Nat
  high : Nat
  den : Nat
  closed : Bool
deriving DecidableEq, Repr

/-- The gap below a power of two is half the gap above it, except at the least
exponent. All numbers are in units of a quarter of `2 ^ q`. -/
def interval (m : Nat) (q : Int) : Interval :=
  let below := if m = Nat.pow 2 (precision - 1) && leastExponent < q then 1 else 2
  let up := if 2 ≤ q then Nat.pow 2 (q - 2).toNat else 1
  let den := if 2 ≤ q then 1 else Nat.pow 2 (2 - q).toNat
  { low := (4 * m - below) * up, mid := 4 * m * up, high := (4 * m + 2) * up, den,
    closed := m % 2 = 0 }

/-- Whether `num / den`, with a denominator of its own, lies in the interval. -/
def Interval.holds (i : Interval) (num den : Nat) : Bool :=
  let value := num * i.den
  if i.closed then i.low * den ≤ value && value ≤ i.high * den
  else i.low * den < value && value < i.high * den

/-- Digits and the place of the point: the value is `digits * 10 ^ scale`. -/
structure Digits where
  digits : Nat
  scale : Int
deriving DecidableEq, Repr

/-- The number of places before the point of `num / den`: the least `e` with
`num / den < 10 ^ e`. The search starts at a lower bound. -/
def placesFrom (num den : Nat) : Nat → Int → Int
  | 0, e => e
  | fuel + 1, e =>
    let less :=
      if 0 ≤ e then num < den * Nat.pow 10 e.toNat else num * Nat.pow 10 (-e).toNat < den
    if less then e else placesFrom num den fuel (e + 1)

def places (num den : Nat) : Int :=
  placesFrom num den 5 ((digitCount num : Int) - digitCount den - 2)

/-- A candidate `n * 10 ^ scale` as a fraction. -/
def fraction (n : Nat) (scale : Int) : Nat × Nat :=
  if 0 ≤ scale then (n * Nat.pow 10 scale.toNat, 1) else (n, Nat.pow 10 (-scale).toNat)

/-- The two neighbours of the value on the grid of step `10 ^ scale`, tested
against the interval. -/
def Interval.onGrid (i : Interval) (scale : Int) : Option Nat :=
  let unit := fraction 1 scale
  let num := i.mid * unit.2
  let den := i.den * unit.1
  let n := num / den
  let r := num % den
  let fits (k : Nat) : Bool :=
    let value := fraction k scale
    i.holds value.1 value.2
  if fits (n + 1) && (!fits n || den ≤ 2 * r) then some (n + 1)
  else if fits n then some n
  else none

/-- Try one digit, then two, up to seventeen. -/
def Interval.search (i : Interval) (e : Int) : Nat → Nat → Digits
  | 0, count => { digits := 0, scale := e - count }
  | fuel + 1, count =>
    match i.onGrid (e - count) with
    | some n => { digits := n, scale := e - count }
    | none => i.search e fuel (count + 1)

/-- The fewest digits that read back as the positive magnitude `m * 2 ^ q`. -/
def shortest (m : Nat) (q : Int) : Digits :=
  let i := interval m q
  i.search (places i.mid i.den) 17 1

end AwkToPython.Decimal
