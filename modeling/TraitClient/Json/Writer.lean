import TraitClient.Json.Basic

/-!
# Writing JSON

`compact` has no blanks; `pretty` indents by two and leaves empty containers on one line.
-/
namespace TraitClient.Json

def hexDigit (n : Nat) : Char := (Nat.toDigits 16 (n % 16)).headD '0'

def escapeChar (c : Char) : List Char :=
  if c = '"' then ['\\', '"']
  else if c = '\\' then ['\\', '\\']
  else if c = '\n' then ['\\', 'n']
  else if c = '\r' then ['\\', 'r']
  else if c = '\t' then ['\\', 't']
  else if c.toNat = 8 then ['\\', 'b']
  else if c.toNat = 12 then ['\\', 'f']
  else if c.toNat < 32 then ['\\', 'u', '0', '0', hexDigit (c.toNat / 16), hexDigit c.toNat]
  else [c]

def quote (s : String) : String :=
  String.ofList ('"' :: s.toList.flatMap escapeChar ++ ['"'])

/-- A double in its shortest form: positional from `1e-5` up to below `1e16`, with `.0` where no
fraction shows, else with an exponent whose sign is written. -/
def floatText (x : Float) : String :=
  let sign (negative : Bool) : String := if negative then "-" else ""
  match Decimal.Double.ofBits x.toBits.toNat with
  | .nan => "null"
  | .infinite _ => "null"
  | .zero negative => sign negative ++ "0.0"
  | .finite negative b =>
    let d := b.shortest
    sign negative ++
      (if -5 < d.point ∧ d.point ≤ 16 then
        String.ofList d.positional ++ (if d.digits.length ≤ d.point then ".0" else "")
      else
        let e := d.point - 1
        String.ofList (d.digits.take 1) ++
          (if d.digits.length > 1 then "." ++ String.ofList (d.digits.drop 1) else "") ++
          "e" ++ (if e < 0 then "-" else "+") ++ toString e.natAbs)

mutual

def compact : Json → String
  | .null => "null"
  | .bool b => if b then "true" else "false"
  | .int n => toString n
  | .float x => floatText x
  | .str s => quote s
  | .arr items => "[" ++ ",".intercalate (compactItems items) ++ "]"
  | .obj entries => "\x7b" ++ ",".intercalate (compactEntries entries) ++ "\x7d"

def compactItems : List Json → List String
  | [] => []
  | v :: vs => compact v :: compactItems vs

def compactEntries : List (String × Json) → List String
  | [] => []
  | (k, v) :: es => (quote k ++ ":" ++ compact v) :: compactEntries es

end

def indent (depth : Nat) : String := String.ofList (List.replicate (2 * depth) ' ')

def block (depth : Nat) (opening closing : String) (lines : List String) : String :=
  if lines.isEmpty then opening ++ closing
  else opening ++ "\n" ++ ",\n".intercalate (lines.map (indent (depth + 1) ++ ·)) ++ "\n" ++
    indent depth ++ closing

mutual

def prettyAt (depth : Nat) : Json → String
  | .arr items => block depth "[" "]" (prettyItems (depth + 1) items)
  | .obj entries => block depth "\x7b" "\x7d" (prettyEntries (depth + 1) entries)
  | .null => "null"
  | .bool b => if b then "true" else "false"
  | .int n => toString n
  | .float x => floatText x
  | .str s => quote s

def prettyItems (depth : Nat) : List Json → List String
  | [] => []
  | v :: vs => prettyAt depth v :: prettyItems depth vs

def prettyEntries (depth : Nat) : List (String × Json) → List String
  | [] => []
  | (k, v) :: es => (quote k ++ ": " ++ prettyAt depth v) :: prettyEntries depth es

end

def pretty (v : Json) : String := prettyAt 0 v

end TraitClient.Json
