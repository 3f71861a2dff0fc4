import TraitClient.Json.Basic
import TraitClient.Text.CodeRanges

/-!
# Reading JSON

Strict JSON: no comments, no trailing commas, no raw control characters in strings, no half of a
surrogate pair, and at most 127 containers inside one another.
-/
namespace TraitClient.Json

def skipBlanks (s : List Char) : List Char :=
  s.dropWhile fun c => c == ' ' || c == '\n' || c == '\t' || c == '\r'

def hex4? : List Char → Option (Nat × List Char)
  | a :: b :: c :: d :: rest => do
    let a ← Text.hexDigit? a
    let b ← Text.hexDigit? b
    let c ← Text.hexDigit? c
    let d ← Text.hexDigit? d
    some (((a * 16 + b) * 16 + c) * 16 + d, rest)
  | _ => none

def escape? : List Char → Option (Char × List Char)
  | '"' :: r => some ('"', r)
  | '\\' :: r => some ('\\', r)
  | '/' :: r => some ('/', r)
  | 'b' :: r => some (Char.ofNat 8, r)
  | 'f' :: r => some (Char.ofNat 12, r)
  | 'n' :: r => some ('\n', r)
  | 'r' :: r => some ('\r', r)
  | 't' :: r => some ('\t', r)
  | 'u' :: r => do
    let (n, r) ← hex4? r
    if 0xD800 ≤ n ∧ n < 0xDC00 then
      match r with
      | '\\' :: 'u' :: r =>
        let (m, r) ← hex4? r
        if 0xDC00 ≤ m ∧ m < 0xE000 then
          some (Char.ofNat (0x10000 + (n - 0xD800) * 0x400 + (m - 0xDC00)), r)
        else none
      | _ => none
    else if 0xDC00 ≤ n ∧ n < 0xE000 then none
    else some (Char.ofNat n, r)
  | _ => none

def stringBody? : Nat → List Char → List Char → Option (String × List Char)
  | 0, _, _ => none
  | fuel + 1, done, s =>
    match s with
    | '"' :: r => some (String.ofList done.reverse, r)
    | '\\' :: r => do
      let (c, r) ← escape? r
      stringBody? fuel (c :: done) r
    | c :: r => if c.toNat < 32 then none else stringBody? fuel (c :: done) r
    | [] => none

/-- `significand * 10 ^ exponent` as a product or quotient of doubles; none if it is too large. -/
def scaledFloat? : Nat → Float → Int → Option Float
  | 0, _, _ => none
  | fuel + 1, f, e =>
    if e.natAbs ≤ 308 then
      let power := Float.ofScientific 1 false e.natAbs
      let f := if 0 ≤ e then f * power else f / power
      if f.isInf then none else some f
    else if f == 0 then some f
    else if 0 ≤ e then none
    else scaledFloat? fuel (f / Float.ofScientific 1 false 308) (e + 308)

/-- The digits that still fit 64 bits as one number, and how many more digits follow. -/
def significand (digits : List Char) (start : Nat) : Nat × Nat :=
  digits.foldl (fun (n, dropped) c =>
    let next := n * 10 + (c.toNat - '0'.toNat)
    if dropped = 0 ∧ next < Nat.pow 2 64 then (next, 0) else (n, dropped + 1)) (start, 0)

def number? (s : List Char) : Option (Json × List Char) := do
  let (negative, s) := match s with
    | '-' :: r => (true, r)
    | _ => (false, s)
  let whole := s.takeWhile Char.isDigit
  let s := s.dropWhile Char.isDigit
  if whole.isEmpty then none
  if whole.length > 1 ∧ whole.head? = some '0' then none
  let (fraction, s) ← match s with
    | '.' :: r =>
      let f := r.takeWhile Char.isDigit
      if f.isEmpty then none else some (some f, r.dropWhile Char.isDigit)
    | _ => some (none, s)
  let (exponent, s) ← match s with
    | c :: r =>
      if c == 'e' || c == 'E' then
        let (minus, r) := match r with
          | '-' :: r => (true, r)
          | '+' :: r => (false, r)
          | _ => (false, r)
        let e := r.takeWhile Char.isDigit
        if e.isEmpty then none
        else
          let n : Nat := e.foldl (fun n c => n * 10 + (c.toNat - '0'.toNat)) 0
          some (some (if minus then -(n : Int) else n), r.dropWhile Char.isDigit)
      else some (none, s)
    | [] => some (none, s)
  let (n, dropped) := significand whole 0
  if fraction.isNone ∧ exponent.isNone ∧ dropped = 0 ∧
      (¬ negative ∨ (0 < n ∧ n ≤ Nat.pow 2 63)) then
    some (.int (if negative then -(n : Int) else n), s)
  else
    let digits := fraction.getD []
    let (m, lost) := if dropped = 0 then significand digits n else (n, digits.length)
    let shift : Int := (dropped : Int) - (digits.length - lost : Nat)
    let e : Int := shift + exponent.getD 0
    let f ← if m = 0 then some 0 else scaledFloat? (e.natAbs / 308 + 2) m.toFloat e
    some (.float (if negative then -f else f), s)

mutual

/-- One value; `depth` bounds the containers that may still open. -/
def value? : Nat → Nat → List Char → Option (Json × List Char)
  | 0, _, _ => none
  | fuel + 1, depth, s =>
    match skipBlanks s with
    | 'n' :: 'u' :: 'l' :: 'l' :: r => some (.null, r)
    | 't' :: 'r' :: 'u' :: 'e' :: r => some (.bool true, r)
    | 'f' :: 'a' :: 'l' :: 's' :: 'e' :: r => some (.bool false, r)
    | '"' :: r => (stringBody? (r.length + 1) [] r).map fun (s, r) => (.str s, r)
    | '[' :: r =>
      match depth with
      | 0 => none
      | depth + 1 =>
        match skipBlanks r with
        | ']' :: r => some (.arr [], r)
        | _ => items? fuel depth [] r
    | '\x7b' :: r =>
      match depth with
      | 0 => none
      | depth + 1 =>
        match skipBlanks r with
        | '\x7d' :: r => some (.obj [], r)
        | _ => entries? fuel depth [] r
    | s => number? s

def items? : Nat → Nat → List Json → List Char → Option (Json × List Char)
  | 0, _, _, _ => none
  | fuel + 1, depth, done, s => do
    let (v, r) ← value? fuel depth s
    match skipBlanks r with
    | ',' :: r => items? fuel depth (v :: done) r
    | ']' :: r => some (.arr (v :: done).reverse, r)
    | _ => none

def entries? : Nat → Nat → List (String × Json) → List Char → Option (Json × List Char)
  | 0, _, _, _ => none
  | fuel + 1, depth, done, s => do
    match skipBlanks s with
    | '"' :: r =>
      let (key, r) ← stringBody? (r.length + 1) [] r
      match skipBlanks r with
      | ':' :: r =>
        let (v, r) ← value? fuel depth r
        match skipBlanks r with
        | ',' :: r => entries? fuel depth ((key, v) :: done) r
        | '\x7d' :: r => some (.obj ((key, v) :: done).reverse, r)
        | _ => none
      | _ => none
    | _ => none

end

def ofText? (s : String) : Option Json :=
  let cs := s.toList
  match value? (cs.length + 1) 127 cs with
  | some (v, rest) => if (skipBlanks rest).isEmpty then some v else none
  | none => none

end TraitClient.Json
