import TraitClient.Annotation.Kind
import TraitClient.Model

/-!
# Index of traits

All traits of the scanned files that a path can name: those at the top of a file and in its inline
modules, each with the imports of its own module.
-/
namespace TraitClient

structure SourceFile where
  path : String
  modulePath : List String
  items : List Source.Item

namespace Extraction

structure TraitEntry where
  declaration : Source.TraitDeclaration
  file : String
  modulePath : List String
  imports : Imports

/-- `crate::a::b::Name`. -/
def TraitEntry.cratePath (e : TraitEntry) : String :=
  TraitClient.cratePath e.modulePath e.declaration.name

structure TraitIndex where
  traits : List TraitEntry
  modules : List (List String)

namespace TraitIndex

def empty : TraitIndex := ⟨[], []⟩

def append (a b : TraitIndex) : TraitIndex := ⟨a.traits ++ b.traits, a.modules ++ b.modules⟩

instance : Append TraitIndex := ⟨append⟩

mutual

def ofItem (file : String) (modulePath : List String) (imports : Imports) :
    Source.Item → TraitIndex
  | .use _ _ => empty
  | .other => empty
  | .trait declaration => ⟨[{ declaration, file, modulePath, imports }], []⟩
  | .module name none => ⟨[], [modulePath ++ [name]]⟩
  | .module name (some items) =>
    ⟨[], [modulePath ++ [name]]⟩ ++
      ofItemList file (modulePath ++ [name]) (Imports.ofItems items) items

def ofItemList (file : String) (modulePath : List String) (imports : Imports) :
    List Source.Item → TraitIndex
  | [] => empty
  | item :: items =>
    ofItem file modulePath imports item ++ ofItemList file modulePath imports items

end

/-- All beginnings of a path, the empty one and the path itself among them. -/
def prefixes : List String → List (List String)
  | [] => [[]]
  | a :: as => [] :: (prefixes as).map (a :: ·)

def ofFile (f : SourceFile) : TraitIndex :=
  ⟨[], prefixes f.modulePath⟩ ++ ofItemList f.path f.modulePath (Imports.ofItems f.items) f.items

/-- The traits in the order of the files, then of the source. -/
def ofFiles (files : List SourceFile) : TraitIndex :=
  files.foldl (fun index f => index ++ ofFile f) empty

def find? (index : TraitIndex) (path : String) : Option TraitEntry :=
  index.traits.find? fun e => e.cratePath == path

end TraitIndex
end Extraction
end TraitClient
