/-!
# Sets of code points

A set is a list of closed ranges.  Most tables are written as a text of hexadecimal bounds separated
by blanks (`41-5A 5F`), those of identifiers as numbers, which proofs can compare.  The tables of
the other text modules hold code points from 128 on; the ASCII half of each class is said in its
definition.
-/
namespace TraitClient.Text

def hexDigit? (c : Char) : Option Nat :=
  if '0' ≤ c ∧ c ≤ '9' then some (c.toNat - '0'.toNat)
  else if 'a' ≤ c ∧ c ≤ 'f' then some (c.toNat - 'a'.toNat + 10)
  else if 'A' ≤ c ∧ c ≤ 'F' then some (c.toNat - 'A'.toNat + 10)
  else none

/-- The number that hexadecimal digits stand for; anything else in the text counts as zero. -/
def hexValue (s : List Char) : Nat :=
  s.foldl (fun n c => n * 16 + (hexDigit? c).getD 0) 0

def splitAll {α : Type} (p : α → Bool) : List α → List (List α)
  | [] => [[]]
  | a :: as =>
    match splitAll p as with
    | [] => [[a]]
    | piece :: pieces => if p a then [] :: piece :: pieces else (a :: piece) :: pieces

def words (s : String) : List (List Char) :=
  (splitAll (fun c => c == ' ' || c == '\n') s.toList).filter (!·.isEmpty)

structure CodeRanges where
  ranges : List (Nat × Nat)

namespace CodeRanges

/-- Reads a table such as `41-5A 5F`. -/
def ofText (s : String) : CodeRanges :=
  ⟨(words s).map fun item =>
    match splitAll (· == '-') item with
    | [first, last] => (hexValue first, hexValue last)
    | _ => (hexValue item, hexValue item)⟩

def contains (t : CodeRanges) (c : Char) : Bool :=
  t.ranges.any fun r => r.1 ≤ c.toNat && c.toNat ≤ r.2

end CodeRanges
end TraitClient.Text
