import TraitClient.Source.Token

/-!
# Syntax trees

What later stages look at: modules, imports and traits of a file, the attributes, parameters and
types of trait functions.  Everything else has been checked by the parser and is left out of the
tree.
-/
namespace TraitClient.Source

mutual

/-- A type.  `tokens` is how it is written, for messages; `other` is every kind of type that cannot
be rendered from a resolved one. -/
inductive TypeExpr
  | paren (tokens : Tokens) (inner : TypeExpr)
  | unit
  | reference (tokens : Tokens) (lifetime : Option String) (isMut : Bool) (target : TypeExpr)
  | slice (tokens : Tokens) (element : TypeExpr)
  | path (tokens : Tokens) (leadingColon : Bool) (segments : List TypeSegment)
  | other (tokens : Tokens)

inductive TypeSegment
  | mk (name : String) (arguments : TypeArguments)

inductive TypeArguments
  | none
  | angle (arguments : List TypeArgument)
  | parenthesized

inductive TypeArgument
  | type (t : TypeExpr)
  | lifetime (name : String)
  | other

end

instance : Inhabited TypeExpr := ⟨.unit⟩

def TypeSegment.name : TypeSegment → String
  | .mk name _ => name

def TypeSegment.arguments : TypeSegment → TypeArguments
  | .mk _ arguments => arguments

structure PathExpr where
  tokens : Tokens
  leadingColon : Bool
  segments : List TypeSegment

structure PlainPath where
  leadingColon : Bool
  segments : List String
  deriving Repr, DecidableEq

/-- What an attribute carries: nothing, the tokens between its brackets, or a value, of which only
a string literal is kept. -/
inductive AttributeArguments
  | none
  | list (tokens : Tokens)
  | value (literal : Option String)

structure Attribute where
  path : PlainPath
  arguments : AttributeArguments

/-- A parameter of a trait function.  The name is known if the pattern is a plain identifier. -/
inductive FunctionParameter
  | receiver (byReference isMut : Bool)
  | typed (attributes : List Attribute) (name : Option String) (type : TypeExpr)

structure TraitFunction where
  attributes : List Attribute
  name : String
  isAsync : Bool
  hasGenerics : Bool
  parameters : List FunctionParameter
  output : Option TypeExpr
  hasBody : Bool

structure TraitBound where
  leadingColon : Bool
  segments : List TypeSegment

def TraitBound.path (b : TraitBound) : PlainPath := ⟨b.leadingColon, b.segments.map (·.name)⟩

structure TraitDeclaration where
  attributes : List Attribute
  isPublic : Bool
  name : String
  hasGenerics : Bool
  supertraits : List TraitBound
  functions : List TraitFunction

def TraitDeclaration.bounds (d : TraitDeclaration) : List PlainPath := d.supertraits.map (·.path)

inductive UseTree
  | path (name : String) (tree : UseTree)
  | name (name : String)
  | rename (name localName : String)
  | glob
  | group (trees : List UseTree)

/-- An item.  The content of a module is absent if another file holds it. -/
inductive Item
  | use (leadingColon : Bool) (tree : UseTree)
  | module (name : String) (content : Option (List Item))
  | trait (declaration : TraitDeclaration)
  | other

end TraitClient.Source
