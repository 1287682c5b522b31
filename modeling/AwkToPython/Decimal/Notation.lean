import AwkToPython.Decimal.Shortest

/-!
# Written numbers

A non-zero number is written with a point while its magnitude is at least
`0.0001` and below `10 ^ 16`, and with an exponent otherwise. A number written
with a point has a digit on either side of it; the exponent has no plus sign.
-/
namespace AwkToPython.Decimal

/-- Drop trailing zeros, counting them into the scale. -/
def Digits.trimZeros : Nat → Digits → Digits
  | 0, d => d
  | fuel + 1, d =>
    if d.digits ≠ 0 && d.digits % 10 = 0 then
      trimZeros fuel { digits := d.digits / 10, scale := d.scale + 1 }
    else d

/-- Text with a point: `cs` are the digits and `point` the number of places
before it, which may be negative or beyond the digits. -/
def positional (cs : List Char) (point : Int) : String :=
  if point ≤ 0 then
    "0." ++ String.ofList (List.replicate (-point).toNat '0' ++ cs)
  else if cs.length ≤ point.toNat then
    String.ofList (cs ++ List.replicate (point.toNat - cs.length) '0') ++ ".0"
  else
    String.ofList (cs.take point.toNat) ++ "." ++ String.ofList (cs.drop point.toNat)

/-- Text with an exponent: one digit before the point, and a point only if more
digits follow. -/
def scientific (cs : List Char) (point : Int) : String :=
  let lead := String.ofList (cs.take 1)
  let tail := if cs.length ≤ 1 then "" else "." ++ String.ofList (cs.drop 1)
  lead ++ tail ++ "e" ++ toString (point - 1)

def Magnitude.text : Magnitude → String
  | .infinite => "inf"
  | .finite m q =>
    if m = 0 then "0.0"
    else
      let d := (shortest m q).trimZeros 20
      let cs := Nat.toDigits 10 d.digits
      let point := cs.length + d.scale
      if -3 ≤ point && point ≤ 16 then positional cs point else scientific cs point

def Numeral.text (n : Numeral) : String :=
  (if n.negative then "-" else "") ++ n.magnitude.text

end AwkToPython.Decimal
