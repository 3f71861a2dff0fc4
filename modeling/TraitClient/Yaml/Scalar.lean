import TraitClient.Yaml.Reading

/-!
# Scalars

How a text is written as a YAML scalar: plain where nothing speaks against it, as a literal block
where it has line feeds, else in quotes.
-/
namespace TraitClient.Yaml

inductive ScalarStyle
  | plain
  | singleQuoted
  | doubleQuoted
  | literal
  deriving Repr, DecidableEq

/-! ## Characters -/

def isBreak (c : Char) : Bool :=
  c == '\n' || c == '\r' || c.toNat = 0x85 || c.toNat = 0x2028 || c.toNat = 0x2029

def isPrintable (c : Char) : Bool :=
  let n := c.toNat
  n = 0x0A || (0x20 ≤ n && n ≤ 0x7E) || (0xA0 ≤ n && n ≠ 0xFEFF && n ≠ 0xFFFE && n ≠ 0xFFFF)

/-- Whether the character, or the end of the text, separates words. -/
def isBlankOrEnd : Option Char → Bool
  | none => true
  | some c => c == ' ' || c == '\t' || c.toNat = 0 || isBreak c

/-! ## Texts -/

def anyPair (rel : Char → Char → Bool) : List Char → Bool
  | a :: b :: rest => rel a b || anyPair rel (b :: rest)
  | _ => false

def spaceThenBreak : List Char → Bool := anyPair fun a b => a == ' ' && isBreak b

def breakThenSpace : List Char → Bool := anyPair fun a b => isBreak a && b == ' '

/-- Characters that mean something at the start of a scalar. -/
def indicators : List Char :=
  ['#', ',', '[', ']', '\x7b', '\x7d', '&', '*', '!', '|', '>', '\'', '"', '%', '@', '`']

def startsWithIndicator : List Char → Bool
  | [] => false
  | c :: rest =>
    indicators.contains c ||
      ((c == '?' || c == ':' || c == '-') && isBlankOrEnd rest.head?)

/-- A colon before a blank, or a number sign behind one. -/
def hasInnerIndicator : List Char → Bool
  | a :: b :: rest =>
    (b == ':' && isBlankOrEnd rest.head?) || (b == '#' && isBlankOrEnd (some a)) ||
      hasInnerIndicator (b :: rest)
  | _ => false

def startsWithMarker (s : List Char) : Bool :=
  "---".toList.isPrefixOf s || "...".toList.isPrefixOf s

def allowsPlain (s : List Char) : Bool :=
  s.all (fun c => isPrintable c && !isBreak c) && s.head? ≠ some ' ' && s.getLast? ≠ some ' ' &&
    !startsWithIndicator s && !hasInnerIndicator s && !startsWithMarker s

def allowsSingleQuoted (s : List Char) : Bool :=
  s.all isPrintable && !spaceThenBreak s && !breakThenSpace s

def allowsLiteral (s : List Char) : Bool :=
  s.all isPrintable && !spaceThenBreak s && s.getLast? ≠ some ' '

def ScalarStyle.ofText (s : List Char) : ScalarStyle :=
  if s.contains '\n' then (if allowsLiteral s then .literal else .doubleQuoted)
  else if !looksTyped s && allowsPlain s then .plain
  else if allowsSingleQuoted s then .singleQuoted
  else .doubleQuoted

/-! ## Writing -/

def spaces (n : Nat) : List Char := List.replicate n ' '

/-- Writes a text whose lines go on at an indent.  `atBreak` tells whether a break is the last that
was written. -/
def indented (indent : Nat) (writeChar : Char → List Char) : Bool → List Char → List Char
  | _, [] => []
  | atBreak, c :: rest =>
    if isBreak c then c :: indented indent writeChar true rest
    else (if atBreak then spaces indent else []) ++ writeChar c ++
      indented indent writeChar false rest

def endsInBreak (s : List Char) : Bool :=
  match s.getLast? with
  | some c => isBreak c
  | none => false

def singleQuoted (indent : Nat) (s : List Char) : List Char :=
  '\'' :: indented indent (fun c => if c = '\'' then ['\'', '\''] else [c]) false s ++
    (if endsInBreak s then spaces indent else []) ++ ['\'']

def hexDigits (width n : Nat) : List Char :=
  let digits := (Nat.toDigits 16 n).map Char.toUpper
  List.replicate (width - digits.length) '0' ++ digits

def shortEscapes : List (Nat × Char) :=
  [(0x00, '0'), (0x07, 'a'), (0x08, 'b'), (0x09, 't'), (0x0A, 'n'), (0x0B, 'v'), (0x0C, 'f'),
    (0x0D, 'r'), (0x1B, 'e'), (0x22, '"'), (0x5C, '\\'), (0x85, 'N'), (0xA0, '_'), (0x2028, 'L'),
    (0x2029, 'P')]

def escaped (c : Char) : List Char :=
  match shortEscapes.find? fun e => e.1 = c.toNat with
  | some (_, letter) => ['\\', letter]
  | none =>
    if c.toNat ≤ 0xFF then ['\\', 'x'] ++ hexDigits 2 c.toNat
    else if c.toNat ≤ 0xFFFF then ['\\', 'u'] ++ hexDigits 4 c.toNat
    else ['\\', 'U'] ++ hexDigits 8 c.toNat

def doubleQuoted (s : List Char) : List Char :=
  let write (c : Char) : List Char :=
    if !isPrintable c || isBreak c || c == '"' || c == '\\' then escaped c else [c]
  '"' :: s.flatMap write ++ ['"']

/-- The header of a literal block: the indent if the text does not show it, and whether the breaks at
its end are none, one, or more. -/
def literalHeader (s : List Char) : List Char :=
  let hint := match s with
    | c :: _ => if c == ' ' || isBreak c then ['2'] else []
    | [] => []
  let chomp := match s.reverse with
    | [] => ['-']
    | c :: rest =>
      if !isBreak c then ['-']
      else match rest with
        | [] => ['+']
        | d :: _ => if isBreak d then ['+'] else []
  '|' :: hint ++ chomp

def literal (indent : Nat) (s : List Char) : List Char :=
  literalHeader s ++ '\n' :: indented indent (fun c => [c]) true s

/-- A text as a scalar whose further lines are indented.  It ends in a line feed if it is a literal
that does. -/
def scalar (indent : Nat) (text : String) : List Char :=
  let s := text.toList
  match ScalarStyle.ofText s with
  | .plain => s
  | .singleQuoted => singleQuoted indent s
  | .doubleQuoted => doubleQuoted s
  | .literal => literal indent s

end TraitClient.Yaml
