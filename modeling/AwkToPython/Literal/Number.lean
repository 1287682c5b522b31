/-!
# Number literals

Python refuses leading zeros in front of a decimal integer part; AWK reads past
them. Hexadecimal literals are kept as written.
-/
namespace AwkToPython.Literal

/-- The integer part without leading zeros; one zero stays of a run of zeros. -/
def trimZeros (digits : List Char) : List Char :=
  match digits.dropWhile (· = '0') with
  | [] => if digits.isEmpty then [] else ['0']
  | rest => rest

def isFractionMark (c : Char) : Bool := c = '.' || c = 'e' || c = 'E'

def unsignedNumber (digits : List Char) : List Char :=
  match digits with
  | '0' :: 'x' :: _ => digits
  | '0' :: 'X' :: _ => digits
  | _ =>
    trimZeros (digits.takeWhile fun c => !isFractionMark c) ++
      digits.dropWhile fun c => !isFractionMark c

def number (text : String) : String :=
  match text.toList with
  | '-' :: digits => String.ofList ('-' :: unsignedNumber digits)
  | digits => String.ofList (unsignedNumber digits)

end AwkToPython.Literal
