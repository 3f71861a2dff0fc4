import TraitClient.Source.Token
import TraitClient.Source.Literal
import TraitClient.Text.Identifier
import TraitClient.Text.Blank

/-!
# Lexing

`lex?` turns a text into token trees.  Comments and blanks are skipped, doc comments become `doc`
attributes, brackets have to match.  Of the leaf tokens a literal is tried first, then a
punctuation character, then an identifier.

Every scanner takes the characters that are left and returns those after the token.
-/
namespace TraitClient.Source.Lexer

open Text

abbrev Scanner := List Char → Option (List Char)

def skipText? (text : List Char) (s : List Char) : Option (List Char) :=
  match text, s with
  | [], s => some s
  | c :: cs, d :: ds => if c = d then skipText? cs ds else none
  | _ :: _, [] => none

def startsWith (text : String) (s : List Char) : Bool := (skipText? text.toList s).isSome

/-- The characters before `rest`, which is a tail of `s`. -/
def before (s rest : List Char) : List Char := s.take (s.length - rest.length)

/-! ## Blanks and comments -/

/-- Directional marks count as blanks. -/
def isSpace (c : Char) : Bool := isBlank c || c.toNat = 0x200E || c.toNat = 0x200F

/-- Splits before a line end; of `\r\n` the carriage return belongs to neither side. -/
def splitLine : List Char → List Char × List Char
  | [] => ([], [])
  | '\n' :: rest => ([], '\n' :: rest)
  | '\r' :: '\n' :: rest => ([], '\n' :: rest)
  | c :: rest =>
    let (line, rest) := splitLine rest
    (c :: line, rest)

/-- After the end of the block comment that closes `depth` open ones. -/
def skipBlockComment : Nat → List Char → Option (List Char)
  | _, [] => none
  | depth, '/' :: '*' :: rest => skipBlockComment (depth + 1) rest
  | depth, '*' :: '/' :: rest =>
    if depth ≤ 1 then some rest else skipBlockComment (depth - 1) rest
  | depth, _ :: rest => skipBlockComment depth rest

def blockComment? (s : List Char) : Option (List Char) :=
  if startsWith "/*" s then skipBlockComment 0 s else none

def isLineDoc (s : List Char) : Bool :=
  (startsWith "///" s && !startsWith "////" s) || startsWith "//!" s

def isBlockDoc (s : List Char) : Bool :=
  (startsWith "/**" s && !startsWith "/***" s) || startsWith "/*!" s

/-- Skips blanks and comments that are not documentation. -/
def skipSpace : Nat → List Char → List Char
  | 0, s => s
  | fuel + 1, s =>
    if startsWith "//" s && !isLineDoc s then skipSpace fuel (splitLine s).2
    else if startsWith "/**/" s then skipSpace fuel (s.drop 4)
    else if startsWith "/*" s && !isBlockDoc s then
      match blockComment? s with
      | some rest => skipSpace fuel rest
      | none => s
    else match s with
      | c :: rest => if isSpace c then skipSpace fuel rest else s
      | [] => []

/-! ## Identifiers -/

def identBody? : Scanner
  | c :: rest => if isIdentStart c then some (rest.dropWhile isIdentContinue) else none
  | [] => none

def unrawable : List String := ["_", "super", "self", "Self", "crate"]

def identAny? (s : List Char) : Option (List Char) :=
  if startsWith "r#" s then
    let body := s.drop 2
    match identBody? body with
    | some rest =>
      if unrawable.contains (String.ofList (before body rest)) then none else some rest
    | none => none
  else identBody? s

def literalPrefixes : List String :=
  ["r\"", "r#\"", "r##", "b\"", "b'", "br\"", "br#", "c\"", "cr\"", "cr#"]

def ident? (s : List Char) : Option (List Char) :=
  if literalPrefixes.any (startsWith · s) then none else identAny? s

/-! ## Literals -/

def skipSuffix (s : List Char) : List Char := (identBody? s).getD s

/-- After the braces of a `\u` escape with one to six digits, and the character it stands for. -/
def unicodeEscape? (s : List Char) : Option (Nat × List Char) :=
  let rec digits : Nat → Nat → List Char → Option (Nat × List Char)
    | value, count, c :: rest =>
      match hexDigit? c with
      | some d => if count = 6 then none else digits (value * 16 + d) (count + 1) rest
      | none =>
        if count = 0 then none
        else if c = '_' then digits value count rest
        else if c = '\x7d' then
          if value < 0xD800 ∨ (0xDFFF < value ∧ value < 0x110000) then some (value, rest) else none
        else none
    | _, _, [] => none
  match s with
  | '\x7b' :: rest => digits 0 0 rest
  | _ => none

def hexEscape? : List Char → Option (Nat × List Char)
  | a :: b :: rest => do
    let a ← hexDigit? a
    let b ← hexDigit? b
    some (a * 16 + b, rest)
  | _ => none

/-- The blanks after a backslash at the end of a line, up to a character that is none.  A carriage
return has to be followed by a newline. -/
def skipContinuation (last : Char) : List Char → Option (List Char)
  | [] => none
  | c :: rest =>
    if last = '\r' then
      if c ≠ '\n' then none
      else match rest with
        | [] => none
        | d :: rest' => if Literal.isLineBlank d then skipContinuation d rest' else some rest
    else if Literal.isLineBlank c then skipContinuation c rest
    else some (c :: rest)

/-- Which characters and escapes a quoted literal may hold. -/
structure QuotedForm where
  unicode : Nat → Bool
  hex : Nat → Bool
  nul : Bool
  char : Char → Bool

def textForm : QuotedForm := ⟨fun _ => true, (· < 128), true, fun _ => true⟩
def byteForm : QuotedForm := ⟨fun _ => false, fun _ => true, true, fun c => c.toNat < 128⟩
def cForm : QuotedForm := ⟨(· ≠ 0), (· ≠ 0), false, fun c => c.toNat ≠ 0⟩

def isSimpleEscape (form : QuotedForm) (c : Char) : Bool :=
  c == 'n' || c == 'r' || c == 't' || c == '\\' || c == '\'' || c == '"' || (c == '0' && form.nul)

def escape? (form : QuotedForm) : Scanner
  | 'x' :: rest =>
    match hexEscape? rest with
    | some (n, rest) => if form.hex n then some rest else none
    | none => none
  | 'u' :: rest =>
    match unicodeEscape? rest with
    | some (n, rest) => if form.unicode n then some rest else none
    | none => none
  | c :: rest => if isSimpleEscape form c then some rest else none
  | [] => none

def quoted (form : QuotedForm) : Nat → Scanner
  | 0, _ => none
  | fuel + 1, s =>
    match s with
    | '"' :: rest => some (skipSuffix rest)
    | '\r' :: '\n' :: rest => quoted form fuel rest
    | '\r' :: _ => none
    | '\\' :: c :: rest =>
      if c = '\n' ∨ c = '\r' then (skipContinuation c rest).bind (quoted form fuel)
      else (escape? form (c :: rest)).bind (quoted form fuel)
    | c :: rest => if form.char c then quoted form fuel rest else none
    | [] => none

def rawBody (char : Char → Bool) (hashes : List Char) : Scanner
  | [] => none
  | '\r' :: '\n' :: rest => rawBody char hashes rest
  | c :: rest =>
    let closed := if c = '"' then skipText? hashes rest else none
    match closed with
    | some rest => some (skipSuffix rest)
    | none => if c ≠ '\r' ∧ char c then rawBody char hashes rest else none

def raw? (char : Char → Bool) (s : List Char) : Option (List Char) :=
  let hashes := s.takeWhile (· == '#')
  match s.drop hashes.length with
  | '"' :: rest => if hashes.length > 255 then none else rawBody char hashes rest
  | _ => none

def single? (form : QuotedForm) (s : List Char) : Option (List Char) := do
  let rest ← match s with
    | '\\' :: rest => escape? form rest
    | c :: rest => if form.char c then some rest else none
    | [] => none
  match rest with
  | '\'' :: rest => some (skipSuffix rest)
  | _ => none

def wordEnd? (s : List Char) : Option (List Char) :=
  match s with
  | c :: _ => if isIdentContinue c then none else some s
  | [] => some s

/-- A suffix such as `u8`, if there is one, and then the end of the word. -/
def numberEnd? (s : List Char) : Option (List Char) := wordEnd? (skipSuffix s)

/-- After the exponent of a float: a sign at most, then digits.  Without digits the number ends
before the `e`, which only a number with a point can. -/
def exponent? (beforeExponent : Option (List Char)) (s : List Char) : Option (List Char) :=
  let rec scan (signed digits : Bool) : Scanner
    | c :: rest =>
      if c = '+' ∨ c = '-' then
        if digits then some (c :: rest)
        else if signed then beforeExponent
        else scan true digits rest
      else if c.isDigit then scan signed true rest
      else if c = '_' then scan signed digits rest
      else if digits then some (c :: rest) else beforeExponent
    | [] => if digits then some [] else beforeExponent
  scan false false s

def isDigitOrBar (c : Char) : Bool := c.isDigit || c == '_'

def floatDigits? (s : List Char) : Option (List Char) :=
  match s with
  | c :: _ =>
    if !c.isDigit then none
    else match s.dropWhile isDigitOrBar with
      | '.' :: rest =>
        let blocked := match rest with
          | d :: _ => d = '.' || isIdentStart d
          | [] => false
        if blocked then none
        else
          match rest.dropWhile isDigitOrBar with
          | e :: after =>
            if e = 'e' ∨ e = 'E' then exponent? (some (e :: after)) after else some (e :: after)
          | [] => some []
      | e :: after => if e = 'e' ∨ e = 'E' then exponent? none after else none
      | [] => none
  | [] => none

def digits? (base : Nat) (s : List Char) : Option (List Char) :=
  let rec scan (empty : Bool) : Scanner
    | c :: rest =>
      if c = '_' then
        if empty ∧ base = 10 then none else scan empty rest
      else match hexDigit? c with
        | some d =>
          if d < base then scan false rest
          else if d < 10 then none
          else if empty then none else some (c :: rest)
        | none => if empty then none else some (c :: rest)
    | [] => if empty then none else some []
  scan true s

def intDigits? (s : List Char) : Option (List Char) :=
  if startsWith "0x" s then digits? 16 (s.drop 2)
  else if startsWith "0o" s then digits? 8 (s.drop 2)
  else if startsWith "0b" s then digits? 2 (s.drop 2)
  else digits? 10 s

/-- After a literal that starts with `opening` and goes on as `scan` says. -/
def after (opening : String) (scan : Scanner) (s : List Char) : Option (List Char) :=
  (skipText? opening.toList s).bind scan

def literal? (s : List Char) : Option (List Char) :=
  let n := s.length + 1
  after "\"" (quoted textForm n) s
    <|> after "r" (raw? fun _ => true) s
    <|> after "b\"" (quoted byteForm n) s
    <|> after "br" (raw? (·.toNat < 128)) s
    <|> after "c\"" (quoted cForm n) s
    <|> after "cr" (raw? (·.toNat ≠ 0)) s
    <|> after "b'" (single? byteForm) s
    <|> after "'" (single? textForm) s
    <|> (floatDigits? s).bind numberEnd?
    <|> (intDigits? s).bind numberEnd?

/-! ## Punctuation -/

def punctChars : List Char := "~!@#$%^&*-=+|;:,<.>/?'".toList

/-- A punctuation character that does not open a comment. -/
def punctChar? (s : List Char) : Option (Char × List Char) :=
  if startsWith "//" s || startsWith "/*" s then none
  else match s with
    | c :: rest => if punctChars.contains c then some (c, rest) else none
    | [] => none

/-- A single quote is joined to the name of its lifetime. -/
def punct? (s : List Char) : Option (TokenTree × List Char) :=
  match punctChar? s with
  | some ('\'', rest) =>
    match identAny? rest with
    | some ('\'' :: _) => none
    | some ('#' :: _) => if startsWith "r#" rest then some (.punct '\'' true, rest) else none
    | some _ => some (.punct '\'' true, rest)
    | none => none
  | some (c, rest) => some (.punct c (punctChar? rest).isSome, rest)
  | none => none

/-! ## Documentation -/

def hasBareReturn : List Char → Bool
  | '\r' :: '\n' :: rest => hasBareReturn rest
  | '\r' :: _ => true
  | _ :: rest => hasBareReturn rest
  | [] => false

/-- A doc comment: its text, whether it documents what encloses it, and what follows. -/
def docComment? (s : List Char) : Option (List Char × Bool × List Char) :=
  let block (inner : Bool) : Option (List Char × Bool × List Char) :=
    (blockComment? s).map fun rest =>
      let text := (before s rest).drop 3
      (text.take (text.length - 2), inner, rest)
  let line (inner : Bool) : Option (List Char × Bool × List Char) :=
    let (text, rest) := splitLine (s.drop 3)
    some (text, inner, rest)
  let found :=
    if startsWith "//!" s then line true
    else if startsWith "/*!" s then block true
    else if isLineDoc s then line false
    else if startsWith "/**" s && !startsWith "/***" s then block false
    else none
  found.bind fun (text, inner, rest) => if hasBareReturn text then none else some (text, inner, rest)

/-- `#[doc = "text"]`, or `#![doc = "text"]`. -/
def docAttribute (text : List Char) (inner : Bool) : Tokens :=
  .punct '#' false :: (if inner then [.punct '!' false] else []) ++
    [.group .bracket
      [.ident "doc", .punct '=' false, .literal (Literal.quote (String.ofList text))]]

/-! ## Token trees -/

def opening? : Char → Option Delimiter
  | '(' => some .parenthesis
  | '[' => some .bracket
  | '\x7b' => some .brace
  | _ => none

def closing? : Char → Option Delimiter
  | ')' => some .parenthesis
  | ']' => some .bracket
  | '\x7d' => some .brace
  | _ => none

def leaf? (s : List Char) : Option (TokenTree × List Char) :=
  match literal? s with
  | some rest => some (.literal (String.ofList (before s rest)), rest)
  | none =>
    match punct? s with
    | some found => some found
    | none => (ident? s).map fun rest => (.ident (String.ofList (before s rest)), rest)

/-- Reads tokens into `done`, the reversed tokens of the innermost open group; `stack` holds the
groups around it. -/
def trees? : Nat → List (Delimiter × Tokens) → Tokens → List Char → Option Tokens
  | 0, _, _, _ => none
  | fuel + 1, stack, done, s =>
    let s := skipSpace (s.length + 1) s
    match docComment? s with
    | some (text, inner, rest) =>
      trees? fuel stack ((docAttribute text inner).reverse ++ done) rest
    | none =>
      match s with
      | [] => if stack.isEmpty then some done.reverse else none
      | c :: rest =>
        match opening? c with
        | some d => trees? fuel ((d, done) :: stack) [] rest
        | none =>
          match closing? c with
          | some d =>
            match stack with
            | (open_, outer) :: stack =>
              if open_ = d then trees? fuel stack (.group d done.reverse :: outer) rest else none
            | [] => none
          | none =>
            match leaf? s with
            | some (t, rest) => trees? fuel stack (t :: done) rest
            | none => none

/-- A byte order mark at the start is no part of the text. -/
def dropMark : List Char → List Char
  | c :: rest => if c.toNat = 0xFEFF then rest else c :: rest
  | [] => []

def lexChars? (s : List Char) : Option Tokens :=
  let s := dropMark s
  trees? (s.length + 1) [] [] s

def lex? (text : String) : Option Tokens := lexChars? text.toList

/-- Cuts the first line if it names an interpreter: `#!` that no attribute follows. -/
def dropInterpreterLine (s : List Char) : List Char :=
  if startsWith "#!" s then
    match skipSpace (s.length + 1) (s.drop 2) with
    | '[' :: _ => s
    | _ => s.dropWhile (· != '\n')
  else s

def lexFile? (text : String) : Option Tokens :=
  lexChars? (dropInterpreterLine (dropMark text.toList))

end TraitClient.Source.Lexer
