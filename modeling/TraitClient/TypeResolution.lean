import TraitClient.Annotation.Imports
import TraitClient.Source.Token

/-!
# Resolving types

A written type becomes a `TypeRef` if generated code can spell it again: `()`, a path with type
arguments on its last segment, a shared reference to such a type or to a slice.  An `Option` of one
argument becomes a flag on the argument.
-/
namespace TraitClient

open Source (TypeExpr TypeSegment TypeArguments TypeArgument Tokens TokenTree)

/-- Why a type cannot be resolved.  `type` is the smallest written type at fault. -/
inductive TypeError
  | mutableReference (type : Tokens)
  | nestedReference (type : Tokens)
  | moduleArguments (type : Tokens)
  | nestedOption (type : Tokens)
  | functionTrait (type : Tokens)
  | otherArgument (type : Tokens)
  | emptyPath
  | unsupported (type : Tokens)

namespace TypeError

def quoted (type : Tokens) : String := "`" ++ TokenTree.listText type ++ "`"

def message : TypeError → String
  | .mutableReference t => "mutable reference " ++ quoted t ++ " is not supported"
  | .nestedReference t =>
    "reference type " ++ quoted t ++ " is not supported, use `Option<&T>` or a single `&T`"
  | .moduleArguments t => "type " ++ quoted t ++ " has arguments on a module segment"
  | .nestedOption t => "nested option " ++ quoted t ++ " is not supported"
  | .functionTrait t => "function trait type " ++ quoted t ++ " is not supported"
  | .otherArgument t => "type " ++ quoted t ++ " has a generic argument other than a type"
  | .emptyPath => "empty type path"
  | .unsupported t => "type " ++ quoted t ++ " is not supported"

end TypeError

def isOptionName (qualified : String) : Bool :=
  qualified == "std::option::Option" || qualified == "core::option::Option"

def hasArguments (s : TypeSegment) : Bool :=
  match s.arguments with
  | .none => false
  | _ => true

def TypeRef.borrowed (t : TypeRef) (lifetime : Option String) : TypeRef :=
  { t with byRef := true, lifetime }

def Imports.pathType (imports : Imports) (tokens : Tokens) (leadingColon : Bool)
    (segments : List String) (arguments : List TypeRef) : Except TypeError TypeRef :=
  let qualified := imports.qualify segments leadingColon
  let written := (if leadingColon then "::" else "") ++ joinPath segments
  match isOptionName qualified, arguments with
  | true, [inner] =>
    if inner.nullable then .error (.nestedOption tokens) else .ok { inner with nullable := true }
  | _, _ => .ok { TypeRef.named qualified written with arguments }

mutual

def Imports.resolve (imports : Imports) : TypeExpr → Except TypeError TypeRef
  | .paren _ inner => imports.resolve inner
  | .unit => .ok TypeRef.unit
  | .reference tokens lifetime isMut (.slice _ element) =>
    if isMut then .error (.mutableReference tokens)
    else do
      let element ← imports.resolve element
      .ok ((TypeRef.slice element).borrowed lifetime)
  | .reference tokens lifetime isMut target =>
    if isMut then .error (.mutableReference tokens)
    else do
      let inner ← imports.resolve target
      if inner.byRef || inner.nullable then .error (.nestedReference tokens)
      else .ok (inner.borrowed lifetime)
  | .slice tokens _ => .error (.unsupported tokens)
  | .path tokens leadingColon segments =>
    if segments.dropLast.any hasArguments then .error (.moduleArguments tokens)
    else do
      let arguments ← imports.resolveLast tokens segments
      imports.pathType tokens leadingColon (segments.map (·.name)) arguments
  | .other tokens => .error (.unsupported tokens)

def Imports.resolveLast (imports : Imports) (tokens : Tokens) :
    List TypeSegment → Except TypeError (List TypeRef)
  | [] => .error .emptyPath
  | [s] => imports.resolveSegment tokens s
  | _ :: s :: rest => imports.resolveLast tokens (s :: rest)

def Imports.resolveSegment (imports : Imports) (tokens : Tokens) :
    TypeSegment → Except TypeError (List TypeRef)
  | .mk _ arguments => imports.resolveArguments tokens arguments

def Imports.resolveArguments (imports : Imports) (tokens : Tokens) :
    TypeArguments → Except TypeError (List TypeRef)
  | .none => .ok []
  | .angle arguments => imports.resolveEach tokens arguments
  | .parenthesized => .error (.functionTrait tokens)

def Imports.resolveEach (imports : Imports) (tokens : Tokens) :
    List TypeArgument → Except TypeError (List TypeRef)
  | [] => .ok []
  | a :: rest => do
    let first ← imports.resolveArgument tokens a
    let others ← imports.resolveEach tokens rest
    .ok (first :: others)

def Imports.resolveArgument (imports : Imports) (tokens : Tokens) :
    TypeArgument → Except TypeError TypeRef
  | .type t => imports.resolve t
  | .lifetime _ => .error (.otherArgument tokens)
  | .other => .error (.otherArgument tokens)

end

end TraitClient
