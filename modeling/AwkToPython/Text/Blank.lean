/-!
# Blank characters

White space is the Unicode property White_Space. Trimming works on character
lists, so that what is kept is a sublist of what was given.
-/
namespace AwkToPython.Text

/-- The code points with the property White_Space, as closed intervals in order. -/
def blankRanges : List (Nat × Nat) :=
  [(0x09, 0x0D), (0x20, 0x20), (0x85, 0x85), (0xA0, 0xA0), (0x1680, 0x1680),
   (0x2000, 0x200A), (0x2028, 0x2029), (0x202F, 0x202F), (0x205F, 0x205F), (0x3000, 0x3000)]

def isBlank (c : Char) : Bool :=
  blankRanges.any fun range => range.1 ≤ c.toNat && c.toNat ≤ range.2

def trimStart (cs : List Char) : List Char := cs.dropWhile isBlank

def trimEnd (cs : List Char) : List Char := (cs.reverse.dropWhile isBlank).reverse

def trim (cs : List Char) : List Char := trimEnd (trimStart cs)

theorem length_trimStart_le (cs : List Char) : (trimStart cs).length ≤ cs.length :=
  (List.dropWhile_suffix isBlank).length_le

theorem length_trim_le (cs : List Char) : (trim cs).length ≤ cs.length := by
  have back : (trim cs).length ≤ (trimStart cs).length := by
    rw [trim, trimEnd, List.length_reverse]
    exact Nat.le_trans (List.dropWhile_suffix isBlank).length_le (Nat.le_of_eq List.length_reverse)
  exact Nat.le_trans back (length_trimStart_le cs)

/-- The property has twenty-five code points. -/
example : (blankRanges.map fun range => range.2 - range.1 + 1).sum = 25 := by decide

end AwkToPython.Text
