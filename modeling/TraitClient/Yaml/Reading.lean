import TraitClient.Text.CodeRanges

/-!
# Plain scalars that are no text

A plain scalar reads as null, a truth value or a number if it looks like one.  Such a text has to be
quoted.
-/
namespace TraitClient.Yaml

def isNull (s : List Char) : Bool :=
  ["", "null", "Null", "NULL", "~"].contains (String.ofList s)

def isTruth (s : List Char) : Bool :=
  ["true", "True", "TRUE", "false", "False", "FALSE"].contains (String.ofList s)

/-! ## Integers -/

def natural? (base : Nat) (s : List Char) : Option Nat :=
  if s.isEmpty then none
  else s.foldl (fun n c => do
    let n ← n
    let d ← Text.hexDigit? c
    if d < base then some (n * base + d) else none) (some 0)

def isNatural (base limit : Nat) (s : List Char) : Bool :=
  match natural? base s with
  | some n => n ≤ limit
  | none => false

/-- What stands behind a mark of a base, with the base. -/
def based? : List Char → Option (Nat × List Char)
  | '0' :: 'x' :: rest => some (16, rest)
  | '0' :: 'o' :: rest => some (8, rest)
  | '0' :: 'b' :: rest => some (2, rest)
  | _ => none

def withoutSign : List Char → List Char
  | '-' :: rest => rest
  | '+' :: rest => rest
  | s => s

/-- Whether the text is a zero that more digits follow, perhaps behind a sign: no number, but not
to be taken for a word either. -/
def isZeroPadded (s : List Char) : Bool :=
  match withoutSign s with
  | '0' :: d :: rest => (d :: rest).all Char.isDigit
  | _ => false

def isMagnitude (limit : Nat) (s : List Char) : Bool :=
  match based? s with
  | some (base, digits) => isNatural base limit digits
  | none => !isZeroPadded s && isNatural 10 limit s

/-- Whether the text is an integer of at most 128 bits. -/
def isInteger : List Char → Bool
  | '-' :: rest => isMagnitude (Nat.pow 2 127) rest
  | '+' :: rest => isMagnitude (Nat.pow 2 128 - 1) rest
  | s => isMagnitude (Nat.pow 2 128 - 1) s

/-! ## Floating point -/

/-- Digits, at most one point among them, and the number of digits behind the point. -/
def mantissa? (s : List Char) : Option (Nat × Nat) :=
  let whole := s.takeWhile Char.isDigit
  match s.dropWhile Char.isDigit with
  | [] => (natural? 10 whole).map fun n => (n, 0)
  | '.' :: fraction =>
    if fraction.all Char.isDigit then
      (natural? 10 (whole ++ fraction)).map fun n => (n, fraction.length)
    else none
  | _ => none

def exponent? : List Char → Option Int
  | '-' :: rest => (natural? 10 rest).map fun n => -(n : Int)
  | '+' :: rest => (natural? 10 rest).map Int.ofNat
  | s => (natural? 10 s).map Int.ofNat

def decimal? (s : List Char) : Option (Nat × Int) :=
  let isMark (c : Char) : Bool := c == 'e' || c == 'E'
  match s.dropWhile (fun c => !isMark c) with
  | [] => (mantissa? s).map fun (m, places) => (m, -(places : Int))
  | _ :: power => do
    let (m, places) ← mantissa? (s.takeWhile fun c => !isMark c)
    let e ← exponent? power
    some (m, e - places)

/-- The smallest number that rounds to no double. -/
def tooLarge : Nat := Nat.pow 2 1024 - Nat.pow 2 970

def isFinite (m : Nat) (e : Int) : Bool :=
  if m = 0 ∨ e ≤ 0 ∧ m < tooLarge then true
  else if 0 ≤ e then e ≤ 310 && m * Nat.pow 10 e.toNat < tooLarge
  else m < tooLarge * Nat.pow 10 (-e).toNat

def isSpecialFloat (s : List Char) : Bool :=
  [".inf", ".Inf", ".INF", "+.inf", "+.Inf", "+.INF", "-.inf", "-.Inf", "-.INF", ".nan", ".NaN",
    ".NAN"].contains (String.ofList s)

def isFloat (s : List Char) : Bool :=
  isSpecialFloat s ||
    match decimal? (withoutSign s) with
    | some (m, e) => isFinite m e
    | none => false

/-- Whether a plain scalar would be read as something else than a text. -/
def looksTyped (s : List Char) : Bool :=
  isNull s || isTruth s || isInteger s || isZeroPadded s || isFloat s

end TraitClient.Yaml
