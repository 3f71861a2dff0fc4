import TraitClient.Code.Tokens
import TraitClient.Text.Identifier

/-!
# Names in generated code

Code can be written only with names that are identifiers.  They may be raw, and keywords count: a
keyword in the wrong place makes the code ill-formed, but is a token.
-/
namespace TraitClient

namespace Code

inductive Word
  | ident (name : String)
  | lifetime (name : String)
  deriving Repr, DecidableEq

/-- Names that have no raw form. -/
def unrawable : List String := ["_", "super", "self", "Self", "crate"]

namespace Word

def isToken : Word → Bool
  | .ident name =>
    match name.toList with
    | 'r' :: '#' :: raw => Text.isIdentText raw && !unrawable.contains (String.ofList raw)
    | s => Text.isIdentText s
  | .lifetime name => Text.isIdentText name.toList

end Word
end Code

mutual

def TypeRef.words : TypeRef → List Code.Word
  | ⟨qualifiedName, path, arguments, _, byRef, lifetime⟩ =>
    (if byRef then lifetime.toList.map .lifetime else []) ++
      (if path == "()" then []
      else if qualifiedName == sliceName then TypeRef.firstWords arguments
      else (Code.pathSegments path).map .ident ++ TypeRef.listWords arguments)

def TypeRef.firstWords : List TypeRef → List Code.Word
  | [] => []
  | t :: _ => t.words

def TypeRef.listWords : List TypeRef → List Code.Word
  | [] => []
  | t :: rest => t.words ++ TypeRef.listWords rest

end

namespace Code

mutual

def Expr.words : Expr → List Word
  | .var n => [.ident n]
  | .string _ => []
  | .unit => []
  | .runtime segments => segments.map .ident
  | .associated type name => [.ident type, .ident name]
  | .field target name => target.words ++ [.ident name]
  | .construct fields => fields.map .ident
  | .pair first second => first.words ++ second.words
  | .singleton element => element.words
  | .borrow target => target.words
  | .call function arguments => function.words ++ Expr.listWords arguments
  | .method receiver name arguments =>
    receiver.words ++ .ident name :: Expr.listWords arguments
  | .await target => target.words
  | .propagate target => target.words
  | .format _ arguments => Expr.listWords arguments
  | .closure parameter body => .ident parameter :: body.words

def Expr.listWords : List Expr → List Word
  | [] => []
  | e :: rest => e.words ++ Expr.listWords rest

end

mutual

def Statement.words : Statement → List Word
  | .letValue _ name value => .ident name :: value.words
  | .letPair first second value => .ident first :: .ident second :: value.words
  | .assign name value => .ident name :: value.words
  | .forEach bound source body => .ident bound :: source.words ++ Statement.listWords body
  | .ifSome bound source body => .ident bound :: source.words ++ Statement.listWords body
  | .run e => e.words
  | .result e => e.words

def Statement.listWords : List Statement → List Word
  | [] => []
  | s :: rest => s.words ++ Statement.listWords rest

end

def CodeType.words : CodeType → List Word
  | .model t => t.words
  | .selfType => []
  | .named name => [.ident name]
  | .runtime name => [.ident name]
  | .runtimeReference name => [.ident name]

def Function.words (f : Function) : List Word :=
  .ident f.name :: f.parameters.flatMap (fun p => .ident p.1 :: p.2.words) ++ f.output.words ++
    Statement.listWords f.body

def Item.words : Item → List Word
  | .struct _ _ name fields =>
    .ident name :: fields.flatMap fun f => .ident f.1 :: f.2.words
  | .inherent type functions => .ident type :: functions.flatMap (·.words)
  | .implementation trait type functions =>
    (pathSegments trait).map .ident ++ .ident type :: functions.flatMap (·.words)
  | .function f => f.words

def Unit.words (u : Unit) : List Word := u.items.flatMap (·.words)

def firstBad? (words : List Word) : Option Word := words.find? fun w => !w.isToken

end Code
end TraitClient
