import TraitClient.Anchor
import TraitClient.Extraction.Signature
import TraitClient.Extraction.TraitIndex

/-!
# Methods of a service with its supertraits

The hierarchy of a service trait is walked depth first in the order of the bounds.  Every trait is
taken once, and of methods with the same name the first one.  Types of inherited methods are
anchored, since the implementation stands beside the service trait.
-/
namespace TraitClient.Extraction

/-- The trait that a bound names.  With `::` in front it is another crate's. -/
def supertrait? (index : TraitIndex) (e : TraitEntry) (bound : Source.PlainPath) :
    Option TraitEntry :=
  if bound.leadingColon then none
  else (e.imports.candidates bound.segments false).findSome? fun candidate =>
    index.find? (anchorPath candidate e.modulePath index.modules)

/-- What the walk has found so far; `visited` holds crate paths. -/
structure Collected where
  methods : List Method
  visited : List String
  supertraits : List String

def Collected.empty : Collected := ⟨[], [], []⟩

structure Context where
  table : AnnotationTable
  index : TraitIndex

abbrev Walk := Logged GenerationError

def ownMethods (c : Context) (interface : String) (e : TraitEntry) (inherited : Bool)
    (declaredIn : String) : List Source.TraitFunction → List Method → Walk (List Method)
  | [], found => pure found
  | f :: rest, found =>
    match methodOf? c.table e.imports declaredIn f with
    | .error fault => Logged.fail (.validation ⟨interface, f.name, fault⟩)
    | .ok (some m) =>
      if found.any (·.name == m.name) then ownMethods c interface e inherited declaredIn rest found
      else
        let m := if inherited then m.anchored e.modulePath c.index.modules else m
        ownMethods c interface e inherited declaredIn rest (found ++ [m])
    | .ok none => do
      if !f.hasBody then
        Logged.warn (e.declaration.name ++ "::" ++ f.name ++
          " has no HTTP verb and no default body; the generated impl will not provide it")
      ownMethods c interface e inherited declaredIn rest found

def visitBounds (index : TraitIndex) (e : TraitEntry)
    (visit : TraitEntry → Collected → Walk Collected) :
    List Source.PlainPath → Collected → Walk Collected
  | [], found => pure found
  | bound :: rest, found => do
    let found ← match supertrait? index e bound with
      | some parent => visit parent found
      | none => pure found
    visitBounds index e visit rest found

/-- Takes a trait and then its supertraits.  Every level of the walk takes a trait that was not
visited before, so `fuel` never has to exceed the number of traits by more than one. -/
def collect (c : Context) (interface : String) : Nat → TraitEntry → Collected → Walk Collected
  | 0, _, found => pure found
  | fuel + 1, e, found =>
    let path := e.cratePath
    if found.visited.contains path then pure found
    else do
      let inherited := !found.visited.isEmpty
      let declaredIn := if inherited then path else e.declaration.name
      let methods ← ownMethods c interface e inherited declaredIn e.declaration.functions
        found.methods
      visitBounds c.index e (collect c interface fuel) e.declaration.bounds
        { methods
          visited := found.visited ++ [path]
          supertraits := if inherited then found.supertraits ++ [path] else found.supertraits }

end TraitClient.Extraction
