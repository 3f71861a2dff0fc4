import TraitClient.Source.Parser.Item
import TraitClient.Source.Lexer

/-!
# Files and fragments

The grammar of a text is unfolded as deep as its tokens can nest calls of the grammar.  Every call
but a bounded number in a row takes a token or goes into a group, so that the depth never shows.
-/
namespace TraitClient.Source

open TraitClient.Source.Parser

def Grammar.step (g : Grammar) : Grammar where
  type := typeStep g
  expr := exprStep g
  operand := operandStep g
  operators := operatorsStep g
  statementExpr := statementExprStep g
  pattern := patternStep g
  statements := statementsStep g
  item := itemStep g

def Grammar.ofDepth : Nat → Grammar
  | 0 => Grammar.empty
  | depth + 1 => Grammar.step (ofDepth depth)

/-- Deep enough for any parse of these tokens. -/
def Grammar.ofTokens (s : Tokens) : Grammar := Grammar.ofDepth (6 * TokenTree.listSize s + 12)

def Parser.file (g : Grammar) : Parser (List Item) := do
  innerAttributes g
  toEnd g.item

def parseItems? (s : Tokens) : Option (List Item) := run? (Parser.file (Grammar.ofTokens s)) s

def parseFile? (text : String) : Option (List Item) := do
  let s ← Lexer.lexFile? text
  parseItems? s

def parseTypeTokens? (s : Tokens) : Option TypeExpr := run? ((Grammar.ofTokens s).type true) s

def parseType? (text : String) : Option TypeExpr := do
  let s ← Lexer.lex? text
  parseTypeTokens? s

/-- A path as it stands in a type. -/
def parsePath? (text : String) : Option PathExpr := do
  let s ← Lexer.lex? text
  let g := Grammar.ofTokens s
  let (path, tokens) ← run? (written (plainPath g (innerBound g) false)) s
  some ⟨tokens, path.leadingColon, path.segments⟩

def parseAttributes? (text : String) : Option (List Attribute) := do
  let s ← Lexer.lex? (text ++ " fn f() \x7b\x7d")
  let g := Grammar.ofTokens s
  run? (do
    let attributes ← outerAttributes g
    skip visibility
    skip (signature g false)
    block g
    pure attributes) s

end TraitClient.Source
