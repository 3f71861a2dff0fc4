import TraitClient.Source.Token
import TraitClient.Source.Literal

/-!
# Parsers over token trees

A parser takes tokens from the front and also says how it would write what it took: operators split
where the grammar splits them, and everything else as it was.  `peek…` functions look at the tokens
that are left; `a >>= b` writes what `a` wrote, then what `b` wrote.
-/
namespace TraitClient.Source

structure Parsed (α : Type) where
  value : α
  written : Tokens
  rest : Tokens

def Parser (α : Type) := Tokens → Option (Parsed α)

namespace Parser

instance : Monad Parser where
  pure a := fun s => some ⟨a, [], s⟩
  bind p f := fun s =>
    match p s with
    | none => none
    | some a =>
      match f a.value a.rest with
      | none => none
      | some b => some ⟨b.value, a.written ++ b.written, b.rest⟩

variable {α β : Type}

def fail : Parser α := fun _ => none

def rest : Parser Tokens := fun s => some ⟨s, [], s⟩

def guard (b : Bool) : Parser Unit := if b then pure () else fail

def sees (peek : Tokens → Bool) : Parser Bool := fun s => some ⟨peek s, [], s⟩

/-- The second parser if the first one fails, on the same tokens. -/
def or (p q : Parser α) : Parser α := fun s =>
  match p s with
  | some r => some r
  | none => q s

/-- The value together with the tokens that were written for it. -/
def written (p : Parser α) : Parser (α × Tokens) := fun s =>
  (p s).map fun r => ⟨(r.value, r.written), r.written, r.rest⟩

/-- The parser with its tokens written otherwise. -/
def respelled (p : Parser (α × Tokens)) : Parser α := fun s =>
  (p s).map fun r => ⟨r.value.1, r.value.2, r.rest⟩

def when (b : Bool) (p : Parser α) : Parser (Option α) :=
  if b then (some <$> p) else pure none

def ifSees (peek : Tokens → Bool) (p : Parser α) : Parser (Option α) := do
  let b ← sees peek
  when b p

/-- Repeats a step that says whether it was the last one, at most `fuel` times. -/
def repeatAtMost (step : Parser (Option α)) : Nat → Parser (List α)
  | 0 => fail
  | fuel + 1 => do
    match ← step with
    | none => pure []
    | some a => do
      let as ← repeatAtMost step fuel
      pure (a :: as)

/-- Repeats a step until it yields nothing.  Every step takes a token, so that there are no more
steps than tokens. -/
def many (step : Parser (Option α)) : Parser (List α) := fun s =>
  repeatAtMost step (s.length + 1) s

def whileSees (peek : Tokens → Bool) (p : Parser α) : Parser (List α) := many (ifSees peek p)

/-- Items with separators between them up to where `stop` holds; the last separator may be there. -/
def separated (separator : Parser Unit) (stop : Tokens → Bool) (item : Parser α) :
    Parser (List α) := fun s =>
  let rec go : Nat → Parser (List α)
    | 0 => fail
    | fuel + 1 => do
      if ← sees stop then pure [] else
      let a ← item
      if ← sees stop then pure [a] else
      separator
      let as ← go fuel
      pure (a :: as)
  go (s.length + 1) s

end Parser

/-! ## Looking ahead -/

/-- Whether the tokens start with the characters of an operator.  The last of them may be joined to
more, so that `<` is seen in `<=`. -/
def peekChars : List Char → Tokens → Bool
  | [], _ => true
  | [c], .punct d _ :: _ => c == d
  | c :: cs, .punct d joint :: rest => c == d && joint && peekChars cs rest
  | _ :: _, _ => false

def peekOp (op : String) (s : Tokens) : Bool := peekChars op.toList s

def peekWord (word : String) : Tokens → Bool
  | .ident name :: _ => name == word
  | _ => false

def peekGroup (d : Delimiter) : Tokens → Bool
  | .group e _ :: _ => d == e
  | _ => false

def peekAnyIdent : Tokens → Bool
  | .ident _ :: _ => true
  | _ => false

def keywords : List String :=
  ["_", "abstract", "as", "async", "await", "become", "box", "break", "const", "continue", "crate",
    "do", "dyn", "else", "enum", "extern", "false", "final", "fn", "for", "if", "impl", "in", "let",
    "loop", "macro", "match", "mod", "move", "mut", "override", "priv", "pub", "ref", "return",
    "Self", "self", "static", "struct", "super", "trait", "true", "try", "type", "typeof", "unsafe",
    "unsized", "use", "virtual", "where", "while", "yield"]

def isPlainName (name : String) : Bool := !keywords.contains name

def peekIdent : Tokens → Bool
  | .ident name :: _ => isPlainName name
  | _ => false

def peekLifetime : Tokens → Bool
  | .punct '\'' true :: .ident _ :: _ => true
  | _ => false

/-- A literal, `true`, `false`, or a number after a minus sign. -/
def peekLit : Tokens → Bool
  | .literal _ :: _ => true
  | .ident name :: _ => name == "true" || name == "false"
  | .punct '-' _ :: .literal t :: _ => (t.toList.head?.map Char.isDigit).getD false
  | _ => false

def peekString : Tokens → Bool
  | .literal t :: _ => (Literal.value? t).isSome
  | _ => false

def peekPathWord (s : Tokens) : Bool :=
  peekWord "self" s || peekWord "Self" s || peekWord "super" s || peekWord "crate" s

/-- The tokens after the first one; a lifetime counts as one. -/
def skipOne : Tokens → Tokens
  | .punct '\'' true :: .ident _ :: rest => rest
  | _ :: rest => rest
  | [] => []

def peek2 (peek : Tokens → Bool) (s : Tokens) : Bool := !s.isEmpty && peek (skipOne s)

def peek3 (peek : Tokens → Bool) (s : Tokens) : Bool := peek2 (peek2 peek) s

def peekEnd (s : Tokens) : Bool := s.isEmpty

/-! ## Single tokens -/

namespace Parser

def takeChars : List Char → Tokens → Option Tokens
  | [], s => some s
  | [c], .punct d _ :: rest => if c == d then some rest else none
  | c :: cs, .punct d joint :: rest => if c == d && joint then takeChars cs rest else none
  | _ :: _, _ => none

/-- An operator; what it is joined to stays. -/
def op (text : String) : Parser Unit := fun s =>
  (takeChars text.toList s).map fun rest => ⟨(), Tokens.operator text, rest⟩

def opIf (text : String) : Parser Bool := do
  if ← sees (peekOp text) then
    op text
    pure true
  else pure false

def anyIdent : Parser String
  | .ident name :: rest => some ⟨name, [.ident name], rest⟩
  | _ => none

def ident : Parser String
  | .ident name :: rest => if isPlainName name then some ⟨name, [.ident name], rest⟩ else none
  | _ => none

def word (text : String) : Parser Unit
  | .ident name :: rest => if name == text then some ⟨(), [.ident name], rest⟩ else none
  | _ => none

def wordIf (text : String) : Parser Bool := do
  if ← sees (peekWord text) then
    word text
    pure true
  else pure false

def lifetime : Parser String
  | .punct '\'' true :: .ident name :: rest =>
    some ⟨name, [.punct '\'' true, .ident name], rest⟩
  | _ => none

def lit : Parser Unit
  | .literal t :: rest => some ⟨(), [.literal t], rest⟩
  | .ident name :: rest =>
    if name == "true" || name == "false" then some ⟨(), [.ident name], rest⟩ else none
  | .punct '-' _ :: .literal t :: rest =>
    if (t.toList.head?.map Char.isDigit).getD false then
      some ⟨(), [.punct '-' false, .literal t], rest⟩
    else none
  | _ => none

/-- A group whose content the parser has to take to its end. -/
def group {α : Type} (d : Delimiter) (p : Parser α) : Parser α
  | .group e body :: rest =>
    if d = e then
      match p body with
      | some ⟨a, w, []⟩ => some ⟨a, [.group d w], rest⟩
      | _ => none
    else none
  | _ => none

def parens {α : Type} (p : Parser α) : Parser α := group .parenthesis p
def braces {α : Type} (p : Parser α) : Parser α := group .brace p
def brackets {α : Type} (p : Parser α) : Parser α := group .bracket p

def anyGroup : Parser (Delimiter × Tokens)
  | .group d body :: rest => some ⟨(d, body), [.group d body], rest⟩
  | _ => none

def comma : Parser Unit := op ","

def commaList {α : Type} (item : Parser α) : Parser (List α) := separated comma peekEnd item

def toEnd {α : Type} (item : Parser α) : Parser (List α) :=
  whileSees (fun s => !peekEnd s) item

def run? {α : Type} (p : Parser α) (s : Tokens) : Option α :=
  match p s with
  | some ⟨a, _, []⟩ => some a
  | _ => none

end Parser
end TraitClient.Source
