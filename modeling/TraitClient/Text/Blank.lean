import TraitClient.Text.CodeRanges

/-!
# Blank characters

The property White_Space: what trimming removes from a header.
-/
namespace TraitClient.Text

/-- White_Space beyond ASCII. -/
def blankRanges : CodeRanges := CodeRanges.ofText
  "85 A0 1680 2000-200A 2028-2029 202F 205F 3000"

def isBlank (c : Char) : Bool :=
  if c.toNat < 128 then c == ' ' || (9 ≤ c.toNat && c.toNat ≤ 13) else blankRanges.contains c

def trim (s : List Char) : List Char :=
  ((s.dropWhile isBlank).reverse.dropWhile isBlank).reverse

end TraitClient.Text
