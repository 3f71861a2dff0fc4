import TraitClient.Code.Layout
import TraitClient.Code.Words
import TraitClient.Emission.MethodBody
import TraitClient.Source.Parser.File
import TraitClient.Files.Path

/-!
# Units of generated code

For a service trait a unit holds a type with its context, one implementation of the trait and of
each supertrait, and a factory.  The code is checked by parsing it as a file.
-/
namespace TraitClient

structure SourceUnit where
  modulePath : List String
  name : String
  fileName : String
  content : String
  /-- The file that the service trait is in. -/
  origin : String
  deriving Repr, DecidableEq

/-- `a/b/file` for a trait of `crate::a::b`. -/
def SourceUnit.relativePath (u : SourceUnit) : String :=
  FilePath.join (u.modulePath.foldl FilePath.join "") u.fileName

inductive EmitFailure
  /-- A name that cannot stand where it is ends the whole run. -/
  | badWord (w : Code.Word)
  | error (e : GenerationError)

namespace Emission

/-- The functions of one implementation, by the trait that they implement. -/
structure TraitGroup where
  trait : String
  functions : List Code.Function

/-- Adds a function to the group of its trait, or to a new one behind all others. -/
def addToGroup (trait : String) (f : Code.Function) : List TraitGroup → List TraitGroup
  | [] => [⟨trait, [f]⟩]
  | g :: rest =>
    if g.trait == trait then { g with functions := g.functions ++ [f] } :: rest
    else g :: addToGroup trait f rest

/-- The implementations of an interface: of its own trait, then of the supertraits. -/
def traitGroups (i : Interface) (encodings : List BodyEncoding) : List TraitGroup :=
  let start := (i.name :: i.supertraits).map fun trait => (⟨trait, []⟩ : TraitGroup)
  (i.methods.zip encodings).foldl
    (fun groups (m, encoding) => addToGroup m.declaredIn (MethodBody.function m encoding) groups)
    start

def plainFunction (v : Visibility) (name : String) (parameters : List (String × Code.CodeType))
    (output : Code.CodeType) (takesSelf : Bool) (value : Code.Expr) : Code.Function :=
  { allowsUnused := false, comment := none, visibility := some v, isAsync := false, name, takesSelf,
    parameters, output, body := [.result value] }

def structItem (i : Interface) : Code.Item :=
  .struct (" Generated implementation of [`" ++ i.name ++ "`].") i.visibility i.implName
    [("context", .runtime "ClientContext")]

def inherentItem (i : Interface) : Code.Item :=
  .inherent i.implName
    [plainFunction i.visibility "new" [("context", .runtime "ClientContext")] .selfType false
        (.construct ["context"]),
      plainFunction i.visibility "context" [] (.runtimeReference "ClientContext") true
        (.borrow (.field (.var "self") "context"))]

def factoryItem (i : Interface) : Code.Item :=
  .function
    { plainFunction i.visibility i.factoryName [("context", .runtimeReference "ClientContext")]
        (.named i.implName) false
        (.call (.associated i.implName "new") [.method (.var "context") "clone" []]) with
      comment := some (" Creates a [`" ++ i.implName ++ "`] bound to `context`.") }

def items (i : Interface) (encodings : List BodyEncoding) : List Code.Item :=
  structItem i :: inherentItem i ::
    (traitGroups i encodings).map (fun g => .implementation g.trait i.implName g.functions) ++
    [factoryItem i]

def header (i : Interface) : String :=
  "// @generated by client-from-source from " ++
    i.sourceFile.map (fun c => if c = '\\' then '/' else c) ++ ". Do not edit.\n"

/-- The name that stands for any type, and so is no name of a trait. -/
def inferred : String := "_"

def unit (runtime : Source.PathExpr) (i : Interface) (encodings : List BodyEncoding) :
    Except EmitFailure SourceUnit :=
  if encodings.length ≠ i.methods.length then
    .error (.error (.emit i.name (.encodingCount encodings.length i.methods.length)))
  else
    let code : Code.Unit := ⟨runtime, items i encodings⟩
    match Code.firstBad? code.words with
    | some w => .error (.badWord w)
    | none =>
      if (Source.parseItems? code.tokens).isNone then .error (.error (.emit i.name .notRust))
      else if (traitGroups i encodings).any (·.trait == inferred) then
        .error (.badWord (.ident inferred))
      else
        .ok
          { modulePath := i.modulePath
            name := i.implName
            fileName := i.fileName
            content := header i ++ "\n" ++ code.layout
            origin := i.sourceFile }

end Emission
end TraitClient
