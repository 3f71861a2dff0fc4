/-!
# Shortest decimals of binary fractions

A finite double is `mantissa * 2 ^ exponent`.  The decimals that read back as it fill an interval
around it; `shortest` takes the first of the grids of one, two, … significant digits that has a
point in the interval, and the point nearest to the double.  All arithmetic is on natural numbers.
-/
namespace TraitClient.Decimal

/-- A positive double, its mantissa below `2 ^ 53`. -/
structure Binary where
  mantissa : Nat
  exponent : Int
  deriving Repr, DecidableEq

/-- The digits of a number without trailing zeros, and the place of the point counted from the left
end of the digits. -/
structure Digits where
  digits : List Char
  point : Int
  deriving Repr, DecidableEq

structure Fraction where
  num : Nat
  den : Nat

namespace Fraction

def le (a b : Fraction) : Bool := a.num * b.den ≤ b.num * a.den

def lt (a b : Fraction) : Bool := a.num * b.den < b.num * a.den

/-- `n * base ^ e`. -/
def scaled (n base : Nat) (e : Int) : Fraction :=
  if 0 ≤ e then ⟨n * Nat.pow base e.toNat, 1⟩ else ⟨n, Nat.pow base (-e).toNat⟩

def distance (a b : Fraction) : Fraction :=
  let x := a.num * b.den
  let y := b.num * a.den
  ⟨(x - y) + (y - x), a.den * b.den⟩

end Fraction

namespace Binary

def value (b : Binary) : Fraction := Fraction.scaled b.mantissa 2 b.exponent

/-- The ends of the interval that rounds to `b`.  The step below a power of two is half the step
above it, but at the smallest exponent. -/
def interval (b : Binary) : Fraction × Fraction :=
  let narrow := b.mantissa = Nat.pow 2 52 ∧ b.exponent > -1074
  let low := if narrow then Fraction.scaled (4 * b.mantissa - 1) 2 (b.exponent - 2)
    else Fraction.scaled (2 * b.mantissa - 1) 2 (b.exponent - 1)
  (low, Fraction.scaled (2 * b.mantissa + 1) 2 (b.exponent - 1))

/-- Whether a fraction reads back as `b`; the ends go to the even mantissa. -/
def reads (b : Binary) (x : Fraction) : Bool :=
  let (low, high) := b.interval
  if b.mantissa % 2 = 0 then low.le x && x.le high else low.lt x && x.lt high

/-- The place of the point of `b`: the least `p` with `b < 10 ^ p`. -/
def point (b : Binary) : Int :=
  let v := b.value
  let rec search : Nat → Int → Int
    | 0, p => p
    | fuel + 1, p => if v.lt (Fraction.scaled 1 10 p) then p else search fuel (p + 1)
  search 700 (-330)

end Binary

def dropTrailingZeros (ds : List Char) : List Char :=
  (ds.reverse.dropWhile (· == '0')).reverse

/-- The best point of the grid of `count` digits, if one reads back as `b`. -/
def Binary.onGrid? (b : Binary) (point : Int) (count : Nat) : Option Digits :=
  let unit : Int := point - count
  let v := b.value
  let below : Nat :=
    if 0 ≤ unit then v.num / (v.den * Nat.pow 10 unit.toNat)
    else v.num * Nat.pow 10 (-unit).toNat / v.den
  let candidates := [below, below + 1].filter fun n => b.reads (Fraction.scaled n 10 unit)
  let nearer (n m : Nat) : Bool :=
    ((Fraction.scaled n 10 unit).distance v).lt ((Fraction.scaled m 10 unit).distance v)
  let best : Option Nat := match candidates with
    | [n, m] => some (if nearer n m then n else if nearer m n then m else if n % 2 = 0 then n else m)
    | n :: _ => some n
    | [] => none
  best.map fun n =>
    let text := Nat.toDigits 10 n
    ⟨dropTrailingZeros text, unit + text.length⟩

/-- The shortest digits that read back as `b`, the nearest of them. -/
def Binary.shortest (b : Binary) : Digits :=
  let p := b.point
  ((List.range 17).findSome? fun k => b.onGrid? p (k + 1)).getD ⟨['0'], 1⟩

inductive Double
  | nan
  | infinite (negative : Bool)
  | zero (negative : Bool)
  | finite (negative : Bool) (value : Binary)

/-- Takes the sign, the exponent and the mantissa out of the bits of a double. -/
def Double.ofBits (bits : Nat) : Double :=
  let negative : Bool := bits / Nat.pow 2 63 % 2 == 1
  let e : Nat := bits / Nat.pow 2 52 % Nat.pow 2 11
  let m : Nat := bits % Nat.pow 2 52
  if e = 2047 then (if m = 0 then .infinite negative else .nan)
  else if e = 0 then (if m = 0 then .zero negative else .finite negative ⟨m, -1074⟩)
  else .finite negative ⟨Nat.pow 2 52 + m, (e : Int) - 1075⟩

/-- Digits with the point put into them and no exponent: `1000`, `12.5`, `0.001`. -/
def Digits.positional (d : Digits) : List Char :=
  if d.point ≤ 0 then
    '0' :: '.' :: (List.replicate (-d.point).toNat '0' ++ d.digits)
  else
    let p := d.point.toNat
    if d.digits.length ≤ p then d.digits ++ List.replicate (p - d.digits.length) '0'
    else d.digits.take p ++ '.' :: d.digits.drop p

end TraitClient.Decimal
