import TraitClient.Extraction.Hierarchy

/-!
# Extracting service traits

Every indexed trait with the service marker becomes an interface, or the error that keeps it from
being one.  An error of one trait leaves the others alone.
-/
namespace TraitClient.Extraction

def isService (table : AnnotationTable) (e : TraitEntry) : Bool :=
  e.declaration.attributes.any fun a => table.classify e.imports a = some .apiService

def interfaceOf (c : Context) (e : TraitEntry) : Walk Interface :=
  if e.declaration.hasGenerics then
    Logged.fail (.validation ⟨e.declaration.name, "", .genericTrait⟩)
  else do
    let found ← collect c e.declaration.name (c.index.traits.length + 1) e Collected.empty
    pure
      { modulePath := e.modulePath
        name := e.declaration.name
        visibility := if e.declaration.isPublic then .everywhere else .crateOnly
        sourceFile := e.file
        methods := found.methods
        supertraits := found.supertraits }

/-- The services of some files, in the order of the files and then of the source. -/
def services (table : AnnotationTable) (files : List SourceFile) :
    List (Logged GenerationError Interface) :=
  let index := TraitIndex.ofFiles files
  (index.traits.filter (isService table)).map (interfaceOf ⟨table, index⟩)

end TraitClient.Extraction
