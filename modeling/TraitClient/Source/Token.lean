/-!
# Token trees

Source code as a list of token trees.  `TokenTree.listText` is the text form that messages and
recorded token streams use: one blank between two tokens, none after a punctuation character that
is joined to the next one.
-/
namespace TraitClient.Source

inductive Delimiter
  | parenthesis
  | brace
  | bracket
  deriving Repr, DecidableEq

/-- A raw identifier keeps its `r#`; a literal is kept as it is spelled.  A punctuation character
is joint if the next character belongs to the same operator. -/
inductive TokenTree
  | ident (name : String)
  | punct (char : Char) (joint : Bool)
  | literal (text : String)
  | group (delimiter : Delimiter) (body : List TokenTree)
  deriving Repr, Inhabited

abbrev Tokens := List TokenTree

namespace TokenTree

mutual

def text : TokenTree → String
  | .ident name => name
  | .punct c _ => String.singleton c
  | .literal t => t
  | .group .parenthesis body => "(" ++ listText body ++ ")"
  | .group .bracket body => "[" ++ listText body ++ "]"
  | .group .brace body =>
    "\x7b " ++ listText body ++ (if body.isEmpty then "" else " ") ++ "\x7d"

def listText : List TokenTree → String
  | [] => ""
  | [t] => t.text
  | t :: rest =>
    let gap := match t with
      | .punct _ true => ""
      | _ => " "
    t.text ++ gap ++ listText rest

end

mutual

def size : TokenTree → Nat
  | .group _ body => listSize body + 1
  | _ => 1

def listSize : List TokenTree → Nat
  | [] => 0
  | t :: rest => t.size + listSize rest

end

end TokenTree

/-- The characters of an operator: all but the last are joined to the next. -/
def Tokens.ofOperatorChars : List Char → Tokens
  | [] => []
  | [c] => [.punct c false]
  | c :: rest => .punct c true :: ofOperatorChars rest

def Tokens.operator (s : String) : Tokens := Tokens.ofOperatorChars s.toList

end TraitClient.Source
