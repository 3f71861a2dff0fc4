import TraitClient.Proofs.Attempts
import TraitClient.Proofs.ImportLeaves
import TraitClient.Proofs.LegibleUnits
import TraitClient.Proofs.ParsedItems

/-!
# Names in services

Every trait of the index has the names of its file, and imports that are made of such names.  A
service is spelled well if generated code has a spelling for the types of its hierarchy, and a path
for each of its supertraits.
-/
namespace TraitClient

open Code (IsName IsSegment IsPath)

/-! ## Imports -/

namespace Imports

def IsNamedLeaf : ImportLeaf → Prop
  | .binding _ target => ∀ s ∈ target, IsSegment s
  | .glob _ => True

mutual

theorem leaves_named {path : List String} (hPath : ∀ s ∈ path, IsSegment s)
    (t : Source.UseTree) (h : t.wellNamed = true) : ∀ leaf ∈ leaves path t, IsNamedLeaf leaf := by
  match t with
  | .path segment tree =>
    obtain ⟨hSegment, hTree⟩ := Bool.and_eq_true_iff.mp h
    exact leaves_named (List.forall_mem_append.mpr
      ⟨hPath, by simpa using Source.isSegment_iff.mp hSegment⟩) tree hTree
  | .name segment =>
    have hBound : ∀ s ∈ path ++ [segment], IsSegment s :=
      List.forall_mem_append.mpr ⟨hPath, by simpa using Source.isSegment_iff.mp h⟩
    rw [leaves]
    split
    · split
      · exact List.forall_mem_singleton.mpr hPath
      · simp
    · exact List.forall_mem_singleton.mpr hBound
  | .rename segment localName =>
    have hBound : ∀ s ∈ path ++ [segment], IsSegment s :=
      List.forall_mem_append.mpr ⟨hPath, by simpa using Source.isSegment_iff.mp h⟩
    rw [leaves]
    split
    · simp
    · simp only [List.forall_mem_singleton, IsNamedLeaf]
      split
      · exact hPath
      · exact hBound
  | .glob => simp [leaves, IsNamedLeaf]
  | .group trees => exact leavesOfAll_named hPath trees h

theorem leavesOfAll_named {path : List String} (hPath : ∀ s ∈ path, IsSegment s)
    (ts : List Source.UseTree) (h : Source.UseTree.allWellNamed ts = true) :
    ∀ leaf ∈ leavesOfAll path ts, IsNamedLeaf leaf := by
  match ts with
  | [] => simp [leavesOfAll]
  | t :: ts =>
    obtain ⟨hTree, hRest⟩ := Bool.and_eq_true_iff.mp h
    exact List.forall_mem_append.mpr
      ⟨leaves_named hPath t hTree, leavesOfAll_named hPath ts hRest⟩

end

theorem spelled_empty : empty.Spelled := fun _ h => absurd h List.not_mem_nil

theorem Spelled.add {imports : Imports} (h : imports.Spelled) {leaf : ImportLeaf}
    (hLeaf : IsNamedLeaf leaf) : (imports.add leaf).Spelled := by
  cases leaf with
  | binding name target =>
    exact List.forall_mem_cons.mpr ⟨hLeaf, fun entry hEntry => h entry (List.mem_filter.mp hEntry).1⟩
  | glob => exact h

theorem Spelled.foldl_add {leaves : List ImportLeaf} (hLeaves : ∀ leaf ∈ leaves, IsNamedLeaf leaf)
    {imports : Imports} (h : imports.Spelled) : (leaves.foldl Imports.add imports).Spelled := by
  induction leaves generalizing imports with
  | nil => exact h
  | cons leaf leaves ih =>
    obtain ⟨hHead, hRest⟩ := List.forall_mem_cons.mp hLeaves
    exact ih hRest (h.add hHead)

/-- The `use` items of a scope have their names as the parser takes them. -/
def UsesSegments (items : List Source.Item) : Prop :=
  ∀ leadingColon tree, .use leadingColon tree ∈ items → tree.wellNamed = true

theorem UsesSegments.spelled {items : List Source.Item} (h : UsesSegments items) :
    (ofItems items).Spelled := by
  rw [ofItems_eq]
  refine Spelled.foldl_add (fun leaf hLeaf => ?_) spelled_empty
  obtain ⟨item, hItem, hLeaf⟩ := List.mem_flatMap.mp hLeaf
  cases item with
  | use leadingColon tree => exact leaves_named (by simp) _ (h _ _ hItem) leaf hLeaf
  | module | trait | other => exact absurd hLeaf List.not_mem_nil

theorem ofItems_spelled {items : List Source.Item} (h : ∀ item ∈ items, item.wellNamed = true) :
    (ofItems items).Spelled := UsesSegments.spelled fun _ _ hItem => h _ hItem

end Imports

/-! ## Files -/

namespace SourceFile

/-- A file with the items of some text. -/
def IsParsed (f : SourceFile) : Prop := ∃ text, Source.parseFile? text = some f.items

theorem IsParsed.wellNamed {f : SourceFile} (h : f.IsParsed) :
    Source.Item.allWellNamed f.items = true := by
  obtain ⟨text, hItems⟩ := h
  exact Source.parseFile?_wellNamed hItems

variable {t : FileTree} {root : String}

theorem read_isParsed {path : String} {f : SourceFile} (h : read t root path = .ok f) : f.IsParsed := by
  unfold read at h
  split at h
  · cases h
  · split at h
    · cases h
    · rename_i hItems
      cases h
      exact ⟨_, hItems⟩

theorem readAll_isParsed {paths : List String} {f : SourceFile}
    (h : f ∈ successes (readAll t root paths).2) : f.IsParsed := by
  obtain ⟨result, hResult, hOk⟩ := List.mem_filterMap.mp h
  obtain ⟨⟨path, first⟩, hPath, rfl⟩ := List.mem_map.mp hResult
  obtain ⟨_, _, hRead⟩ := List.mem_map.mp hPath
  cases hRead
  dsimp only at hOk
  split at hOk
  · cases hOk
  · rename_i hFile
    cases hOk
    exact read_isParsed hFile

end SourceFile

/-! ## Traits -/

namespace Extraction

/-- A trait whose names are those of a parsed file. -/
structure TraitEntry.WellNamed (e : TraitEntry) : Prop where
  declaration : e.declaration.wellNamed = true
  imports : e.imports.Spelled

theorem TraitEntry.WellNamed.isName {e : TraitEntry} (h : e.WellNamed) : IsName e.declaration.name :=
  Source.isName_iff.mp (Bool.and_eq_true_iff.mp h.declaration).1

namespace TraitIndex

mutual

theorem ofItem_wellNamed {file : String} {modulePath : List String} {imports : Imports}
    (hImports : imports.Spelled) (item : Source.Item) (h : item.wellNamed = true) :
    ∀ e ∈ (ofItem file modulePath imports item).traits, e.WellNamed := by
  match item with
  | .use .. | .other | .module _ none => exact fun e he => absurd he List.not_mem_nil
  | .trait declaration => simpa [ofItem] using ⟨h, hImports⟩
  | .module name (some items) =>
    obtain ⟨_, hItems⟩ := Bool.and_eq_true_iff.mp h
    have hInner := Imports.ofItems_spelled ((Source.Item.allWellNamed_iff items).mp hItems)
    exact ofItemList_wellNamed hInner items hItems

theorem ofItemList_wellNamed {file : String} {modulePath : List String} {imports : Imports}
    (hImports : imports.Spelled) (items : List Source.Item)
    (h : Source.Item.allWellNamed items = true) :
    ∀ e ∈ (ofItemList file modulePath imports items).traits, e.WellNamed := by
  match items with
  | [] => exact fun e he => absurd he List.not_mem_nil
  | item :: items =>
    obtain ⟨hItem, hRest⟩ := Bool.and_eq_true_iff.mp h
    exact List.forall_mem_append.mpr
      ⟨ofItem_wellNamed hImports item hItem, ofItemList_wellNamed hImports items hRest⟩

end

theorem ofFiles_wellNamed {files : List SourceFile}
    (h : ∀ f ∈ files, Source.Item.allWellNamed f.items = true) :
    ∀ e ∈ (ofFiles files).traits, e.WellNamed := by
  have hFold (index : TraitIndex) (hIndex : ∀ e ∈ index.traits, e.WellNamed) :
      ∀ e ∈ (files.foldl (fun index f => index ++ ofFile f) index).traits, e.WellNamed := by
    induction files generalizing index with
    | nil => exact hIndex
    | cons f files ih =>
      obtain ⟨hHead, hRest⟩ := List.forall_mem_cons.mp h
      have hImports := Imports.ofItems_spelled ((Source.Item.allWellNamed_iff _).mp hHead)
      have hFile : ∀ e ∈ (ofItemList f.path f.modulePath (Imports.ofItems f.items) f.items).traits,
          e.WellNamed := ofItemList_wellNamed hImports _ hHead
      exact ih hRest _ (List.forall_mem_append.mpr ⟨hIndex, hFile⟩)
  exact hFold empty fun e he => absurd he List.not_mem_nil

end TraitIndex

/-! ## Services -/

/-- Whether generated code can spell what it takes from the traits of a service: the types of its
methods, and the modules of its supertraits. -/
structure HasSpellings (c : Context) (i : Interface) : Prop where
  types : ∀ t ∈ c.index.traits, t.cratePath ∈ i.qualifiedName :: i.supertraits →
    ∀ f ∈ t.declaration.functions, carriesVerb c t f = true →
      ∀ type ∈ f.types, HasSpelling t.imports (i.supertraits.contains t.cratePath) type
  modules : ∀ t ∈ c.index.traits, t.cratePath ∈ i.supertraits → ∀ s ∈ t.modulePath, IsSegment s

variable {c : Context}

theorem methodOf?_carriesVerb {e : TraitEntry} {declaredIn : String} {f : Source.TraitFunction}
    {m : Method} (h : methodOf? c.table e.imports declaredIn f = .ok (some m)) :
    carriesVerb c e f = true := (methodOf?_cases h).1.symm

theorem Listed.mem {t : TraitEntry} (h : Listed c.index t) : t ∈ c.index.traits :=
  List.mem_of_find?_eq_some h

theorem spelled_of_mem_declaredMethods {e : TraitEntry} (he : e.WellNamed)
    (hTypes : ∀ f ∈ e.declaration.functions, carriesVerb c e f = true →
      ∀ type ∈ f.types, HasSpelling e.imports false type) {m : Method}
    (hm : m ∈ declaredMethods c e) : m.Spelled := by
  obtain ⟨f, hf, hMethod⟩ := List.mem_filterMap.mp hm
  unfold verbMethod? at hMethod
  split at hMethod
  · rename_i m' hOk
    cases hMethod
    have hNames := List.all_eq_true.mp (Bool.and_eq_true_iff.mp he.declaration).2 f hf
    have hSpelling := hTypes f hf (methodOf?_carriesVerb hOk)
    exact (methodOf?_fromSource he.imports hNames hSpelling hOk).spelled
  · cases hMethod

theorem spelled_of_mem_inheritedMethods {e : TraitEntry} (he : e.WellNamed)
    (hTypes : ∀ f ∈ e.declaration.functions, carriesVerb c e f = true →
      ∀ type ∈ f.types, HasSpelling e.imports true type)
    (hModule : ∀ s ∈ e.modulePath, IsSegment s) {m : Method} (hm : m ∈ inheritedMethods c e) :
    m.Spelled := by
  obtain ⟨f, hf, hMethod⟩ := List.mem_filterMap.mp hm
  unfold verbMethod? at hMethod
  split at hMethod
  · rename_i m' hOk
    cases hMethod
    have hNames := List.all_eq_true.mp (Bool.and_eq_true_iff.mp he.declaration).2 f hf
    have hSpelling := hTypes f hf (methodOf?_carriesVerb hOk)
    exact (methodOf?_fromSource he.imports hNames hSpelling hOk).anchored hModule
  · cases hMethod

theorem isPath_cratePath {e : TraitEntry} (he : e.WellNamed)
    (hModule : ∀ s ∈ e.modulePath, IsSegment s) : IsPath e.cratePath := by
  have hName := he.isName
  exact (isPath_crateLocal hModule (by simpa using hName.isSegment)).1

theorem interfaceOf_qualifiedName {e : TraitEntry} {i : Interface}
    (h : (interfaceOf c e).result = .ok i) : i.qualifiedName = e.cratePath := by
  obtain ⟨_, _, hModule, hName, _⟩ := exists_collected h
  rw [Interface.qualifiedName, hModule, hName]
  rfl

theorem interfaceOf_spelled {e : TraitEntry} {i : Interface}
    (hIndex : ∀ t ∈ c.index.traits, t.WellNamed) (he : e ∈ c.index.traits)
    (h : (interfaceOf c e).result = .ok i) (hSpellings : HasSpellings c i) :
    i.Spelled ∧ ∀ path ∈ i.supertraits, IsPath path := by
  obtain ⟨hName, order, hGathers, hListed, _⟩ := interfaceOf_gathers h
  have hSuper (t : TraitEntry) (ht : t ∈ order) : t.cratePath ∈ i.supertraits :=
    hGathers.supertraits ▸ List.mem_map_of_mem ht
  have hMember (t : TraitEntry) (ht : t ∈ order) : t ∈ c.index.traits := (hListed t ht).mem
  have hOwn (m : Method) (hm : m ∈ declaredMethods c e) : m.Spelled := by
    refine spelled_of_mem_declaredMethods (hIndex e he) (fun f hf hVerb type hType => ?_) hm
    have hSpelling := hSpellings.types e he
      (interfaceOf_qualifiedName h ▸ List.mem_cons_self) f hf hVerb type hType
    have hNot : i.supertraits.contains e.cratePath = false := by
      simpa using hGathers.not_supertrait
    rwa [hNot] at hSpelling
  have hInherited (t : TraitEntry) (ht : t ∈ order) (m : Method) (hm : m ∈ inheritedMethods c t) :
      m.Spelled := by
    refine spelled_of_mem_inheritedMethods (hIndex t (hMember t ht))
      (fun f hf hVerb type hType => ?_) (hSpellings.modules t (hMember t ht) (hSuper t ht)) hm
    have hSpelling := hSpellings.types t (hMember t ht)
      (List.mem_cons_of_mem _ (hSuper t ht)) f hf hVerb type hType
    rwa [List.contains_iff_mem.mpr (hSuper t ht)] at hSpelling
  have hGathered (m : Method) (hm : m ∈ i.methods) :
      m ∈ declaredMethods c e ∨ ∃ t ∈ order, m ∈ inheritedMethods c t := by
    rw [hGathers.methods] at hm
    simpa using firstByName_subset _ m hm
  refine ⟨⟨?_, fun m hm => ?_, fun m hm => ?_⟩, ?_⟩
  · rw [hName]
    exact (hIndex e he).isName
  · rcases hGathered m hm with hm | ⟨t, ht, hm⟩
    · exact hOwn m hm
    · exact hInherited t ht m hm
  · rcases hGathered m hm with hm | ⟨t, ht, hm⟩
    · rw [hGathers.declaredIn_own m hm, hName]
      exact List.mem_cons_self
    · rw [hGathers.declaredIn_inherited t ht m hm]
      exact List.mem_cons_of_mem _ (hSuper t ht)
  · rw [hGathers.supertraits]
    rintro path hPath
    obtain ⟨t, ht, rfl⟩ := List.mem_map.mp hPath
    exact isPath_cratePath (hIndex t (hMember t ht))
      (hSpellings.modules t (hMember t ht) (hSuper t ht))

end Extraction
end TraitClient
