import TraitClient.Annotation.Imports
import TraitClient.Annotation.Kind

/-!
# Anchored paths

A path that is written in one module is respelled so that it means the same in every module of the
crate: from `crate` for what is in the crate, with `::` in front for what is not.
-/
namespace TraitClient

def splitPathChars : List Char → List Char → List (List Char)
  | pending, ':' :: ':' :: rest => pending.reverse :: splitPathChars [] rest
  | pending, c :: rest => splitPathChars (c :: pending) rest
  | pending, [] => [pending.reverse]

def splitPath (path : String) : List String := (splitPathChars [] path.toList).map String.ofList

/-- Takes `self` and `super` off the front, each `super` one module up from `base`. -/
def climb : List String → List String → List String × List String
  | base, [] => (base, [])
  | base, first :: rest =>
    if first == "self" then climb base rest
    else if first == "super" then climb base.dropLast rest
    else (base, first :: rest)

def crateLocal (base rest : List String) : String := joinPath ("crate" :: base ++ rest)

/-- The anchored form of a path found in a module.  A path that starts with a child module is in the
crate, and so is a lone name unless it is built in; any other relative path names another crate. -/
def anchorPath (qualified : String) (modulePath : List String) (modules : List (List String)) :
    String :=
  match splitPath qualified with
  | [] => qualified
  | first :: rest =>
    if first == "crate" then qualified
    else if first == "self" || first == "super" then
      let (base, rest) := climb modulePath (first :: rest)
      crateLocal base rest
    else if rest.isEmpty then
      if TypeRef.isPrimitiveName first then qualified else crateLocal modulePath [first]
    else if modules.contains (modulePath ++ [first]) then crateLocal modulePath (first :: rest)
    else "::" ++ qualified

mutual

/-- Respells a type and its arguments.  Prelude names, `()` and slices keep their spelling. -/
def TypeRef.anchored (modulePath : List String) (modules : List (List String)) : TypeRef → TypeRef
  | ⟨qualifiedName, path, arguments, nullable, byRef, lifetime⟩ =>
    { qualifiedName
      path :=
        if qualifiedName == sliceName || path == "()" || isPrelude path qualifiedName then path
        else anchorPath qualifiedName modulePath modules
      arguments := anchoredAll modulePath modules arguments
      nullable
      byRef
      lifetime }

def TypeRef.anchoredAll (modulePath : List String) (modules : List (List String)) :
    List TypeRef → List TypeRef
  | [] => []
  | t :: ts => t.anchored modulePath modules :: TypeRef.anchoredAll modulePath modules ts

end

def Method.anchored (m : Method) (modulePath : List String) (modules : List (List String)) :
    Method :=
  { m with
    parameters := m.parameters.map fun p =>
      { p with type := p.type.anchored modulePath modules }
    returnType := m.returnType.anchored modulePath modules }

end TraitClient
