import TraitClient.Emission.Unit
import TraitClient.Files.Tree

/-!
# Sinks

A sink stores units.  It has a state that a failed write changes as well.
-/
namespace TraitClient

inductive WriteOutcome
  | written (path : String)
  | unchanged (path : String)
  deriving Repr, DecidableEq

abbrev Sink (σ : Type) : Type := σ → SourceUnit → σ × Logged GenerationError WriteOutcome

/-! ## In memory -/

/-- Units in the order in which they first came; no two have both name and module in common. -/
structure UnitStore where
  units : List SourceUnit
  deriving Repr

namespace UnitStore

def empty : UnitStore := ⟨[]⟩

def get? (s : UnitStore) (name : String) : Option SourceUnit := s.units.find? (·.name == name)

def sameUnit (a b : SourceUnit) : Bool := a.name == b.name && a.modulePath == b.modulePath

/-- Puts a unit in the place of the first one of its name and module, or behind all others. -/
def replace (u : SourceUnit) : List SourceUnit → List SourceUnit
  | [] => [u]
  | v :: rest => if sameUnit v u then u :: rest else v :: replace u rest

def write (s : UnitStore) (u : SourceUnit) : UnitStore × WriteOutcome :=
  match s.units.find? fun v => sameUnit v u with
  | some v =>
    if v.content == u.content then (s, .unchanged u.relativePath)
    else (⟨replace u s.units⟩, .written u.relativePath)
  | none => (⟨replace u s.units⟩, .written u.relativePath)

def sink : Sink UnitStore := fun s u =>
  let (s, outcome) := s.write u
  (s, pure outcome)

end UnitStore

/-! ## In a directory -/

/-- Files below a directory, and the lines that were printed while they were written. -/
structure OutputFolder where
  tree : FileTree
  directory : String
  cargoDirectives : Bool
  printed : List String

namespace OutputFolder

/-- Writes a file under another name and then moves it, so that it is never seen half written.  A
failed move leaves the other file. -/
def writeAtomic (t : FileTree) (path content : String) : FileTree × Except GenerationError Unit :=
  let temporary := FilePath.withExtension path "rs.tmp"
  match t.writeText? temporary content with
  | none => (t, .error (.io temporary))
  | some t =>
    match t.rename? temporary path with
    | none => (t, .error (.io path))
    | some t => (t, .ok ())

def store (t : FileTree) (path content : String) : FileTree × Except GenerationError Unit :=
  match FilePath.parent? path with
  | none => writeAtomic t path content
  | some parent =>
    match t.makeAll? parent with
    | none => (t, .error (.io parent))
    | some t => writeAtomic t path content

def announce (f : OutputFolder) (u : SourceUnit) : OutputFolder :=
  if f.cargoDirectives then
    { f with printed := f.printed ++ ["cargo:rerun-if-changed=" ++ u.origin] }
  else f

def sink : Sink OutputFolder := fun f u =>
  let f := f.announce u
  let path := FilePath.join f.directory u.relativePath
  if f.tree.readText? path == some u.content then (f, pure (.unchanged path))
  else
    let (tree, result) := store f.tree path u.content
    let outcome : Logged GenerationError WriteOutcome := do
      Logged.ofExcept result
      Logged.info ("Wrote " ++ path)
      pure (.written path)
    ({ f with tree }, outcome)

end OutputFolder
end TraitClient
