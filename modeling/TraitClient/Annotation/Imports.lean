import TraitClient.Source.Syntax
import TraitClient.Model

/-!
# Imports of a scope

The `use` items of one module: which path each local name stands for, and the prefixes that are
imported as a whole.
-/
namespace TraitClient

def joinPath (segments : List String) : String := "::".intercalate segments

/-- One path that a use tree imports: under a local name, or with everything below it. -/
inductive ImportLeaf
  | binding (name : String) (target : List String)
  | glob (path : List String)
  deriving Repr, DecidableEq

/-- The imports of a scope, the later ones first. -/
structure Imports where
  bindings : List (String × List String)
  globs : List (List String)
  deriving Repr, Inhabited

namespace Imports

def empty : Imports := ⟨[], []⟩

/-- A later binding of a name takes the place of an earlier one. -/
def add (imports : Imports) : ImportLeaf → Imports
  | .binding name target =>
    { imports with
      bindings := (name, target) :: imports.bindings.filter fun entry => entry.1 != name }
  | .glob path => { imports with globs := imports.globs ++ [path] }

/-! ## Collecting imports -/

/-- What has been imported so far, and the path above the tree that is visited. -/
structure Collector where
  imports : Imports
  path : List String
  deriving Repr

namespace Collector

def enter (c : Collector) (name : String) : Collector := { c with path := c.path ++ [name] }

def leave (c : Collector) : Collector := { c with path := c.path.dropLast }

def take (c : Collector) (leaf : ImportLeaf) : Collector :=
  { c with imports := c.imports.add leaf }

mutual

/-- Takes the leaves of a tree as it comes to them.  `self` stands for the path above it, and `as _`
binds no name. -/
def visit (c : Collector) : Source.UseTree → Collector
  | .path name tree => (visit (c.enter name) tree).leave
  | .group trees => visitAll c trees
  | .name name =>
    if name == "self" then
      match c.path.getLast? with
      | some last => c.take (.binding last c.path)
      | none => c
    else c.take (.binding name (c.path ++ [name]))
  | .rename name localName =>
    if localName == "_" then c
    else c.take (.binding localName (if name == "self" then c.path else c.path ++ [name]))
  | .glob => c.take (.glob c.path)

def visitAll (c : Collector) : List Source.UseTree → Collector
  | [] => c
  | tree :: trees => visitAll (visit c tree) trees

end

end Collector

/-- Adds the imports of an item, if it is a `use` item. -/
def addItem (imports : Imports) : Source.Item → Imports
  | .use _ tree => (Collector.visit ⟨imports, []⟩ tree).imports
  | _ => imports

/-- The imports of the `use` items among these, not those inside of modules. -/
def ofItems (items : List Source.Item) : Imports := items.foldl addItem empty

def target? (imports : Imports) (name : String) : Option (List String) :=
  (imports.bindings.find? fun entry => entry.1 == name).map (·.2)

/-- The full names that a written path may have, the likeliest first.  An imported first segment
leaves no choice; a lone name may come from any prefix that is imported as a whole. -/
def candidates (imports : Imports) (segments : List String) (leadingColon : Bool) : List String :=
  match segments with
  | [] => []
  | first :: others =>
    if leadingColon then [joinPath segments]
    else match imports.target? first with
      | some target => [joinPath (target ++ others)]
      | none =>
        joinPath segments ::
          (if others.isEmpty then imports.globs.map fun glob => joinPath (glob ++ [first]) else [])

end Imports

/-- Names that every module knows without an import, with the paths they stand for. -/
def preludeTypes : List (String × String) :=
  [("Option", "std::option::Option"), ("Result", "std::result::Result"), ("Vec", "std::vec::Vec"),
    ("String", "std::string::String"), ("Box", "std::boxed::Box")]

def isPrelude (written qualified : String) : Bool := preludeTypes.contains (written, qualified)

/-- The full name of a written type.  Imports come before the prelude, and what neither knows stays
as written. -/
def Imports.qualify (imports : Imports) (segments : List String) (leadingColon : Bool) : String :=
  match segments with
  | [] => ""
  | first :: others =>
    if leadingColon then joinPath segments
    else match imports.target? first with
      | some target => joinPath (target ++ others)
      | none =>
        match others, (preludeTypes.find? fun entry => entry.1 == first) with
        | [], some (_, path) => path
        | _, _ => joinPath segments

end TraitClient
