import TraitClient.Text.CodeRanges
import TraitClient.Text.Escaped

/-!
# String literals

`value?` reads the text of a string literal, raw or with escapes; `quote` writes a string as one.
-/
namespace TraitClient.Source.Literal

/-- Digits of a `\u` escape up to its closing brace; underscores count for nothing. -/
def unicodeEscape : Nat → List Char → Nat × List Char
  | n, '\x7d' :: rest => (n, rest)
  | n, '_' :: rest => unicodeEscape n rest
  | n, c :: rest => unicodeEscape (n * 16 + (Text.hexDigit? c).getD 0) rest
  | n, [] => (n, [])

def isLineBlank (c : Char) : Bool := c == ' ' || c == '\t' || c == '\n' || c == '\r'

/-- The content of a literal with escapes after its opening quote.  A backslash at the end of a
line takes the blanks that follow with it, and a line end is one character. -/
def cooked : Nat → List Char → List Char
  | 0, _ => []
  | fuel + 1, s =>
    match s with
    | '"' :: _ => []
    | [] => []
    | '\r' :: '\n' :: rest => '\n' :: cooked fuel rest
    | '\\' :: 'n' :: rest => '\n' :: cooked fuel rest
    | '\\' :: 'r' :: rest => '\r' :: cooked fuel rest
    | '\\' :: 't' :: rest => '\t' :: cooked fuel rest
    | '\\' :: '0' :: rest => Char.ofNat 0 :: cooked fuel rest
    | '\\' :: 'x' :: a :: b :: rest => Char.ofNat (Text.hexValue [a, b]) :: cooked fuel rest
    | '\\' :: 'u' :: _ :: rest =>
      let (n, rest) := unicodeEscape 0 rest
      Char.ofNat n :: cooked fuel rest
    | '\\' :: c :: rest =>
      if c = '\n' ∨ c = '\r' then cooked fuel (rest.dropWhile isLineBlank)
      else c :: cooked fuel rest
    | c :: rest => c :: cooked fuel rest

def rawContent (s : List Char) : List Char :=
  ((s.dropWhile (· == '#')).drop 1).reverse.dropWhile (· != '"') |>.drop 1 |>.reverse

def value? (text : String) : Option String :=
  match text.toList with
  | '"' :: rest => some (String.ofList (cooked (rest.length + 1) rest))
  | 'r' :: rest => some (String.ofList (rawContent rest))
  | _ => none

def escapeChar (c : Char) (next : Option Char) : List Char :=
  if c.toNat = 0 then
    match next with
    | some d => if '0' ≤ d ∧ d ≤ '7' then ['\\', 'x', '0', '0'] else ['\\', '0']
    | none => ['\\', '0']
  else if c = '\t' then ['\\', 't']
  else if c = '\r' then ['\\', 'r']
  else if c = '\n' then ['\\', 'n']
  else if c = '"' then ['\\', '"']
  else if c = '\\' then ['\\', '\\']
  else if Text.isEscaped c then
    ['\\', 'u', '\x7b'] ++ Nat.toDigits 16 c.toNat ++ ['\x7d']
  else [c]

def escape : List Char → List Char
  | [] => []
  | c :: rest => escapeChar c rest.head? ++ escape rest

/-- The literal of a string.  A NUL before an octal digit is written in hexadecimal. -/
def quote (s : String) : String := String.ofList ('"' :: escape s.toList ++ ['"'])

end TraitClient.Source.Literal
