import TraitClient.Source.Parser.Basic
import TraitClient.Source.Syntax

/-!
# The recursive parts of the grammar

The grammar calls itself through the fields of `Grammar`.  Each module of this folder defines the
parsers of one part over such a record, and `Parser/File` ties the knot.
-/
namespace TraitClient.Source

/-- What its context has to know about an expression. -/
inductive ExprKind
  /-- Ends in a block, and is a statement or a match arm without a separator. -/
  | blockLike
  | macroCall (braces : Bool)
  | range
  | comparison
  | other
  deriving Repr, DecidableEq

/-- What its context has to know about a pattern: the identifier if it is nothing else, and whether
it is `..` or a range that is open at one end. -/
inductive PatternKind
  | plainName (name : String)
  | rest
  | openRange
  | other
  deriving Repr, DecidableEq

abbrev Precedence := Nat

namespace Precedence

def lowest : Precedence := 0
def assign : Precedence := 1
def range : Precedence := 2
def or : Precedence := 3
def and : Precedence := 4
def compare : Precedence := 5
def bitOr : Precedence := 6
def bitXor : Precedence := 7
def bitAnd : Precedence := 8
def shift : Precedence := 9
def sum : Precedence := 10
def product : Precedence := 11
def cast : Precedence := 12

end Precedence

structure Grammar where
  /-- A type; with `allowPlus`, further bounds may follow a trait. -/
  type : (allowPlus : Bool) → Parser TypeExpr
  /-- An expression; without `allowStruct`, a brace ends a path. -/
  expr : (allowStruct : Bool) → Parser ExprKind
  operand : (allowStruct : Bool) → Parser ExprKind
  /-- The operators after a left operand that bind at least as tightly as `base`. -/
  operators : (allowStruct : Bool) → (base : Precedence) → (left : ExprKind) → Parser ExprKind
  statementExpr : Parser ExprKind
  pattern : Parser PatternKind
  statements : Parser Unit
  item : Parser Item

/-- The grammar that accepts nothing. -/
def Grammar.empty : Grammar where
  type _ := Parser.fail
  expr _ := Parser.fail
  operand _ := Parser.fail
  operators _ _ _ := Parser.fail
  statementExpr := Parser.fail
  pattern := Parser.fail
  statements := Parser.fail
  item := Parser.fail

namespace Parser

def skip {α : Type} (p : Parser α) : Parser Unit := do
  let _ ← p
  pure ()

def attributeArguments (g : Grammar) : Parser AttributeArguments := do
  let s ← rest
  match s with
  | .group _ body :: _ =>
    skip anyGroup
    pure (.list body)
  | _ =>
    if peekOp "=" s && !peekOp "==" s && !peekOp "=>" s then
      op "="
      let value ← rest
      match value with
      | [.literal text] =>
        lit
        pure (.value (Literal.value? text))
      | _ =>
        if peekOp "#" value && peek2 (peekGroup .bracket) value then fail
        else
          skip (g.expr true)
          pure (.value none)
    else pure .none

def namePath : Parser PlainPath := do
  let leading ← opIf "::"
  let rec names : Nat → Parser (List String)
    | 0 => fail
    | fuel + 1 => do
      if ← sees fun s => peekIdent s || peekPathWord s then
        let name ← anyIdent
        if ← opIf "::" then
          let more ← names fuel
          pure (name :: more)
        else pure [name]
      else fail
  let s ← rest
  let segments ← names (s.length + 1)
  pure ⟨leading, segments⟩

def attributeContent (g : Grammar) : Parser Attribute := do
  let path ←
    if ← sees (peekWord "unsafe") then
      word "unsafe"
      pure ⟨false, ["unsafe"]⟩
    else namePath
  let arguments ← attributeArguments g
  pure ⟨path, arguments⟩

def outerAttributes (g : Grammar) : Parser (List Attribute) :=
  whileSees (peekOp "#") do
    op "#"
    brackets (attributeContent g)

def innerAttributes (g : Grammar) : Parser Unit :=
  skip <| whileSees (fun s => peekOp "#" s && peek2 (peekOp "!") s) do
    op "#"
    op "!"
    brackets (attributeContent g)

def block (g : Grammar) : Parser Unit :=
  braces do
    innerAttributes g
    g.statements

end Parser
end TraitClient.Source
