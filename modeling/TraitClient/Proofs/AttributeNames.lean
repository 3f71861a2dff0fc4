import TraitClient.Annotation.Kind
import TraitClient.Proofs.ForeignPaths
import TraitClient.Proofs.HierarchyWalk

/-!
# Names of attributes

What an attribute means is decided by its full name.  A written path has one full name if it starts
with `::` or with an imported name; a lone name that is not imported has one below each path that is
imported as a whole.  An attribute is recognised exactly if one of these names is in the table.
-/
namespace TraitClient

open Code (IsName IsSegment)
open Source (UseTree Item PlainPath)
open Imports (UsesSegments)

/-! ## What is imported -/

/-- A `use` tree with another one inside of it, and the paths that they stand below. -/
inductive Below : List String → UseTree → List String → UseTree → Prop
  | here {path : List String} {tree : UseTree} : Below path tree path tree
  | path {path : List String} {name : String} {tree : UseTree} {path' : List String}
      {tree' : UseTree} (h : Below (path ++ [name]) tree path' tree') :
    Below path (.path name tree) path' tree'
  | group {path : List String} {trees : List UseTree} {tree : UseTree} {path' : List String}
      {tree' : UseTree} (hMem : tree ∈ trees) (h : Below path tree path' tree') :
    Below path (.group trees) path' tree'

/-- What the end of a `use` tree stands for: a path under a local name, or all names of a path. -/
inductive StandsFor : List String → UseTree → ImportLeaf → Prop
  | name {path : List String} {name : String} (h : name ≠ "self") :
    StandsFor path (.name name) (.binding name (path ++ [name]))
  | self {path : List String} {last : String} (h : path.getLast? = some last) :
    StandsFor path (.name "self") (.binding last path)
  | rename {path : List String} {name localName : String} (h : name ≠ "self")
      (hLocal : localName ≠ "_") :
    StandsFor path (.rename name localName) (.binding localName (path ++ [name]))
  | renameSelf {path : List String} {localName : String} (hLocal : localName ≠ "_") :
    StandsFor path (.rename "self" localName) (.binding localName path)
  | glob {path : List String} : StandsFor path .glob (.glob path)

/-- A `use` item of the scope has the tree at the path, alone or in braces with others. -/
def Uses (items : List Item) (path : List String) (tree : UseTree) : Prop :=
  ∃ leadingColon whole, .use leadingColon whole ∈ items ∧ Below [] whole path tree

def Imported (items : List Item) (leaf : ImportLeaf) : Prop :=
  ∃ path tree, Uses items path tree ∧ StandsFor path tree leaf

def NotImported (items : List Item) (name : String) : Prop :=
  ∀ target, ¬Imported items (.binding name target)

/-- Of the imports of a name the last one, which is in force. -/
def InForce (items : List Item) (name : String) (target : List String) : Prop :=
  ∃ earlier later, items.flatMap Imports.leavesOf = earlier ++ .binding name target :: later ∧
    ∀ other, .binding name other ∉ later

namespace Imports

variable {path : List String} {leaf : ImportLeaf}

theorem mem_leaves_name_iff {name : String} :
    leaf ∈ leaves path (.name name) ↔ StandsFor path (.name name) leaf := by
  rw [leaves]
  constructor
  · intro hMem
    split at hMem
    · rename_i hSelf
      obtain rfl := beq_iff_eq.mp hSelf
      split at hMem
      · rename_i last hLast
        obtain rfl := List.mem_singleton.mp hMem
        exact .self hLast
      · exact absurd hMem List.not_mem_nil
    · rename_i hSelf
      obtain rfl := List.mem_singleton.mp hMem
      exact .name fun hEq => hSelf (beq_iff_eq.mpr hEq)
  · intro hLeaf
    cases hLeaf with
    | name h => simp [h]
    | self h => simp [h]

theorem mem_leaves_rename_iff {name localName : String} :
    leaf ∈ leaves path (.rename name localName) ↔ StandsFor path (.rename name localName) leaf := by
  rw [leaves]
  constructor
  · intro hMem
    split at hMem
    · exact absurd hMem List.not_mem_nil
    · rename_i hLocal
      have hLocal : localName ≠ "_" := fun hEq => hLocal (beq_iff_eq.mpr hEq)
      obtain rfl := List.mem_singleton.mp hMem
      split
      · rename_i hSelf
        obtain rfl := beq_iff_eq.mp hSelf
        exact .renameSelf hLocal
      · rename_i hSelf
        exact .rename (fun hEq => hSelf (beq_iff_eq.mpr hEq)) hLocal
  · intro hLeaf
    cases hLeaf with
    | rename h hLocal => simp [h, hLocal]
    | renameSelf hLocal => simp [hLocal]

theorem mem_leaves_glob_iff : leaf ∈ leaves path .glob ↔ StandsFor path .glob leaf := by
  rw [leaves, List.mem_singleton]
  constructor
  · rintro rfl
    exact .glob
  · intro hLeaf
    cases hLeaf with
    | glob => rfl

theorem exists_below_iff_of_only {tree : UseTree}
    (hOnly : ∀ path' tree', Below path tree path' tree' → path' = path ∧ tree' = tree) :
    (∃ path' tree', Below path tree path' tree' ∧ StandsFor path' tree' leaf) ↔
      StandsFor path tree leaf := by
  constructor
  · rintro ⟨path', tree', hBelow, hLeaf⟩
    obtain ⟨rfl, rfl⟩ := hOnly path' tree' hBelow
    exact hLeaf
  · exact fun hLeaf => ⟨path, tree, .here, hLeaf⟩

mutual

theorem mem_leaves_iff (path : List String) (tree : UseTree) (leaf : ImportLeaf) :
    leaf ∈ leaves path tree ↔ ∃ path' tree', Below path tree path' tree' ∧
      StandsFor path' tree' leaf := by
  match tree with
  | .path name tree =>
    rw [leaves, mem_leaves_iff (path ++ [name]) tree leaf]
    constructor
    · rintro ⟨path', tree', hBelow, hLeaf⟩
      exact ⟨path', tree', .path hBelow, hLeaf⟩
    · rintro ⟨path', tree', hBelow, hLeaf⟩
      cases hBelow with
      | here => cases hLeaf
      | path hBelow => exact ⟨path', tree', hBelow, hLeaf⟩
  | .group trees =>
    rw [leaves, mem_leavesOfAll_iff path trees leaf]
    constructor
    · rintro ⟨tree, hMem, path', tree', hBelow, hLeaf⟩
      exact ⟨path', tree', .group hMem hBelow, hLeaf⟩
    · rintro ⟨path', tree', hBelow, hLeaf⟩
      cases hBelow with
      | here => cases hLeaf
      | group hMem hBelow => exact ⟨_, hMem, path', tree', hBelow, hLeaf⟩
  | .name name =>
    rw [mem_leaves_name_iff, exists_below_iff_of_only]
    rintro _ _ ⟨⟩
    exact ⟨rfl, rfl⟩
  | .rename name localName =>
    rw [mem_leaves_rename_iff, exists_below_iff_of_only]
    rintro _ _ ⟨⟩
    exact ⟨rfl, rfl⟩
  | .glob =>
    rw [mem_leaves_glob_iff, exists_below_iff_of_only]
    rintro _ _ ⟨⟩
    exact ⟨rfl, rfl⟩

theorem mem_leavesOfAll_iff (path : List String) (trees : List UseTree) (leaf : ImportLeaf) :
    leaf ∈ leavesOfAll path trees ↔ ∃ tree ∈ trees, ∃ path' tree', Below path tree path' tree' ∧
      StandsFor path' tree' leaf := by
  match trees with
  | [] => simp [leavesOfAll]
  | tree :: trees =>
    rw [leavesOfAll, List.mem_append, mem_leaves_iff path tree leaf,
      mem_leavesOfAll_iff path trees leaf]
    simp only [List.mem_cons, exists_eq_or_imp]

end

variable {items : List Item}

theorem mem_leavesOf_iff (leaf : ImportLeaf) :
    leaf ∈ items.flatMap leavesOf ↔ Imported items leaf := by
  rw [List.mem_flatMap]
  constructor
  · rintro ⟨item, hItem, hMem⟩
    cases item with
    | use leadingColon whole =>
      obtain ⟨path, tree, hBelow, hLeaf⟩ := (mem_leaves_iff [] whole leaf).mp hMem
      exact ⟨path, tree, ⟨leadingColon, whole, hItem, hBelow⟩, hLeaf⟩
    | module | trait | other => exact absurd hMem List.not_mem_nil
  · rintro ⟨path, tree, ⟨leadingColon, whole, hItem, hBelow⟩, hLeaf⟩
    exact ⟨_, hItem, (mem_leaves_iff [] whole leaf).mpr ⟨path, tree, hBelow, hLeaf⟩⟩

theorem leafTarget?_eq_some_iff {name : String} {leaf : ImportLeaf} {target : List String} :
    leafTarget? name leaf = some target ↔ leaf = .binding name target := by
  cases leaf with
  | glob => simp [leafTarget?]
  | binding bound path =>
    by_cases hSame : bound = name <;> simp [leafTarget?, hSame]

theorem target?_eq_findSome? (items : List Item) (name : String) :
    (ofItems items).target? name =
      (items.flatMap leavesOf).reverse.findSome? (leafTarget? name) := by
  have hEmpty : empty.target? name = none := rfl
  rw [ofItems_eq, target?_foldl_add, hEmpty, Option.or_none]

theorem target?_eq_some_iff {name : String} {target : List String} :
    (ofItems items).target? name = some target ↔ InForce items name target := by
  rw [target?_eq_findSome?, List.findSome?_eq_some_iff]
  constructor
  · rintro ⟨later, leaf, earlier, hSplit, hLeaf, hLater⟩
    obtain rfl := leafTarget?_eq_some_iff.mp hLeaf
    refine ⟨earlier.reverse, later.reverse, ?_, fun other hOther => ?_⟩
    · rw [← List.reverse_reverse (items.flatMap leavesOf), hSplit]
      simp
    · have hNone := hLater _ (List.mem_reverse.mp hOther)
      simp [leafTarget?] at hNone
  · rintro ⟨earlier, later, hSplit, hLater⟩
    refine ⟨later.reverse, .binding name target, earlier.reverse, by simp [hSplit],
      leafTarget?_eq_some_iff.mpr rfl, fun leaf hLeaf => ?_⟩
    rw [Option.eq_none_iff_forall_ne_some]
    intro other hOther
    obtain rfl := leafTarget?_eq_some_iff.mp hOther
    exact hLater other (List.mem_reverse.mp hLeaf)

theorem target?_eq_none_iff {name : String} :
    (ofItems items).target? name = none ↔ NotImported items name := by
  rw [target?_eq_findSome?, List.findSome?_eq_none_iff]
  constructor
  · intro hNone target hImported
    have hTarget := hNone _ (List.mem_reverse.mpr ((mem_leavesOf_iff _).mpr hImported))
    simp [leafTarget?] at hTarget
  · intro hNot leaf hLeaf
    rw [Option.eq_none_iff_forall_ne_some]
    intro target hTarget
    obtain rfl := leafTarget?_eq_some_iff.mp hTarget
    exact hNot target ((mem_leavesOf_iff _).mp (List.mem_reverse.mp hLeaf))

theorem mem_globs_foldl_add (found : List ImportLeaf) (imports : Imports) (path : List String) :
    path ∈ (found.foldl add imports).globs ↔ path ∈ imports.globs ∨ .glob path ∈ found := by
  induction found generalizing imports with
  | nil => simp
  | cons leaf found ih =>
    rw [List.foldl_cons, ih]
    cases leaf with
    | binding bound target => simp [add]
    | glob other => simp [add, or_assoc]

theorem mem_globs_iff {path : List String} :
    path ∈ (ofItems items).globs ↔ Imported items (.glob path) := by
  rw [ofItems_eq, mem_globs_foldl_add, ← mem_leavesOf_iff]
  simp [empty]

end Imports

/-! ## Full names -/

/-- The full names that a written path has in a scope. -/
inductive FullName (items : List Item) : PlainPath → List String → Prop
  /-- A path with `::` in front is full. -/
  | global {first : String} {rest : List String} :
    FullName items ⟨true, first :: rest⟩ (first :: rest)
  | imported {first : String} {rest target : List String} (h : InForce items first target) :
    FullName items ⟨false, first :: rest⟩ (target ++ rest)
  | written {first : String} {rest : List String} (h : NotImported items first) :
    FullName items ⟨false, first :: rest⟩ (first :: rest)
  | glob {name : String} {path : List String} (h : NotImported items name)
      (hGlob : Imported items (.glob path)) : FullName items ⟨false, [name]⟩ (path ++ [name])

section FullNames

variable {items : List Item} {path : PlainPath}

theorem InForce.imported {name : String} {target : List String} (h : InForce items name target) :
    Imported items (.binding name target) := by
  obtain ⟨earlier, later, hSplit, _⟩ := h
  exact (Imports.mem_leavesOf_iff _).mp (by simp [hSplit])

theorem InForce.unique {name : String} {target target' : List String}
    (h : InForce items name target) (h' : InForce items name target') : target = target' := by
  rw [← Imports.target?_eq_some_iff] at h h'
  exact Option.some.inj (h.symm.trans h')

theorem inForce_of_only {name : String} {target : List String}
    (h : Imported items (.binding name target))
    (hOnly : ∀ other, Imported items (.binding name other) → other = target) :
    InForce items name target := by
  cases hTarget : (Imports.ofItems items).target? name with
  | none => exact absurd h (Imports.target?_eq_none_iff.mp hTarget target)
  | some other =>
    have hInForce := Imports.target?_eq_some_iff.mp hTarget
    rwa [hOnly other hInForce.imported] at hInForce

theorem fullName_global_iff {first : String} {rest full : List String} :
    FullName items ⟨true, first :: rest⟩ full ↔ full = first :: rest := by
  constructor
  · intro h
    cases h with
    | global => rfl
  · rintro rfl
    exact .global

theorem InForce.fullName_iff {first : String} {rest target full : List String}
    (hInForce : InForce items first target) :
    FullName items ⟨false, first :: rest⟩ full ↔ full = target ++ rest := by
  constructor
  · intro h
    cases h with
    | imported h => rw [h.unique hInForce]
    | written h => exact absurd hInForce.imported (h _)
    | glob h => exact absurd hInForce.imported (h _)
  · rintro rfl
    exact .imported hInForce

theorem NotImported.fullName_iff {first : String} {rest full : List String}
    (hNot : NotImported items first) :
    FullName items ⟨false, first :: rest⟩ full ↔
      full = first :: rest ∨
        rest = [] ∧ ∃ glob, Imported items (.glob glob) ∧ full = glob ++ [first] := by
  constructor
  · intro h
    cases h with
    | imported h => exact absurd h.imported (hNot _)
    | written => exact .inl rfl
    | glob _ hGlob => exact .inr ⟨rfl, _, hGlob, rfl⟩
  · rintro (rfl | ⟨rfl, glob, hGlob, rfl⟩)
    · exact .written hNot
    · exact .glob hNot hGlob

theorem mem_candidates_iff {candidate : String} :
    candidate ∈ (Imports.ofItems items).candidates path.segments path.leadingColon ↔
      ∃ full, FullName items path full ∧ candidate = joinPath full := by
  obtain ⟨leadingColon, segments⟩ := path
  cases segments with
  | nil =>
    refine ⟨fun hMem => absurd hMem List.not_mem_nil, ?_⟩
    rintro ⟨full, hFull, _⟩
    cases hFull
  | cons first rest =>
    cases leadingColon with
    | true =>
      simp only [fullName_global_iff, exists_eq_left]
      exact List.mem_singleton
    | false =>
      simp only [Imports.candidates, Bool.false_eq_true, if_false]
      cases hTarget : (Imports.ofItems items).target? first with
      | some target =>
        have hInForce := Imports.target?_eq_some_iff.mp hTarget
        simp only [hInForce.fullName_iff, exists_eq_left, List.mem_singleton]
      | none =>
        have hNot := Imports.target?_eq_none_iff.mp hTarget
        simp only [hNot.fullName_iff, List.mem_cons, or_and_right, exists_or, exists_eq_left]
        refine or_congr_right ?_
        cases rest with
        | nil =>
          simp only [List.isEmpty_nil, if_true, List.mem_map, Imports.mem_globs_iff]
          constructor
          · rintro ⟨glob, hGlob, rfl⟩
            exact ⟨_, ⟨trivial, glob, hGlob, rfl⟩, rfl⟩
          · rintro ⟨_, ⟨_, glob, hGlob, rfl⟩, rfl⟩
            exact ⟨glob, hGlob, rfl⟩
        | cons => simp

theorem FullName.getLast?_eq {full full' : List String}
    (h : FullName items path full) (h' : FullName items path full') :
    full.getLast? = full'.getLast? := by
  cases h with
  | global => rw [fullName_global_iff.mp h']
  | imported h => rw [h.fullName_iff.mp h']
  | written h | glob h =>
    obtain rfl | ⟨hRest, _, _, rfl⟩ := h.fullName_iff.mp h'
    · simp
    · simp [hRest]

end FullNames

/-! ## Names are made of segments -/

def ImportLeaf.path : ImportLeaf → List String
  | .binding _ target => target
  | .glob path => path

section Segments

variable {items : List Item}

theorem Below.segments {path path' : List String} {tree tree' : UseTree}
    (h : Below path tree path' tree') (hPath : ∀ s ∈ path, IsSegment s)
    (hTree : tree.wellNamed = true) : (∀ s ∈ path', IsSegment s) ∧ tree'.wellNamed = true := by
  induction h with
  | here => exact ⟨hPath, hTree⟩
  | path _ ih =>
    obtain ⟨hName, hRest⟩ := Bool.and_eq_true_iff.mp hTree
    exact ih (List.forall_mem_append.mpr
      ⟨hPath, List.forall_mem_singleton.mpr (Source.isSegment_iff.mp hName)⟩) hRest
  | group hMem _ ih => exact ih hPath ((UseTree.allWellNamed_iff _).mp hTree _ hMem)

theorem Imported.segments (hItems : UsesSegments items) {leaf : ImportLeaf}
    (h : Imported items leaf) : ∀ s ∈ leaf.path, IsSegment s := by
  obtain ⟨path, tree, ⟨leadingColon, whole, hItem, hBelow⟩, hLeaf⟩ := h
  obtain ⟨hPath, hTree⟩ := hBelow.segments (by simp) (hItems _ _ hItem)
  cases hLeaf with
  | name | rename =>
    exact List.forall_mem_append.mpr
      ⟨hPath, List.forall_mem_singleton.mpr (Source.isSegment_iff.mp hTree)⟩
  | self | renameSelf | glob => exact hPath

theorem FullName.segments (hItems : UsesSegments items) {path : PlainPath} {full : List String}
    (h : FullName items path full) (hPath : ∀ s ∈ path.segments, IsSegment s) :
    ∀ s ∈ full, IsSegment s := by
  cases h with
  | global | written => exact hPath
  | imported h =>
    exact List.forall_mem_append.mpr
      ⟨h.imported.segments hItems, fun s hs => hPath s (List.mem_cons_of_mem _ hs)⟩
  | glob _ hGlob => exact List.forall_mem_append.mpr ⟨hGlob.segments hItems, hPath⟩

end Segments

/-! ## The table -/

theorem joinPath_snoc {space : List String} (h : space ≠ []) (name : String) :
    joinPath (space ++ [name]) = joinPath space ++ "::" ++ name := by
  induction space with
  | nil => exact absurd rfl h
  | cons first rest ih =>
    cases rest with
    | nil => rw [List.singleton_append, joinPath_cons_cons, joinPath_singleton, joinPath_singleton]
    | cons second rest =>
      rw [List.cons_append, List.cons_append, joinPath_cons_cons, ← List.cons_append,
        ih (List.cons_ne_nil _ _), joinPath_cons_cons]
      simp only [String.append_assoc]

theorem joinPath_eq_iff {full full' : List String} (hFull : ∀ s ∈ full, Unbroken s)
    (hFull' : ∀ s ∈ full', Unbroken s) (hNonempty : full' ≠ []) :
    joinPath full = joinPath full' ↔ full = full' := by
  refine ⟨fun hSame => ?_, congrArg joinPath⟩
  by_cases hEmpty : full = []
  · obtain ⟨c, rest, hText, _⟩ := joinPath_head hNonempty hFull'
    rw [← hSame, hEmpty] at hText
    exact absurd hText (List.cons_ne_nil _ _).symm
  · rw [← splitPath_joinPath hEmpty hFull, hSame, splitPath_joinPath hNonempty hFull']

theorem withoutLeadingColons_joinPath {full : List String} (h : ∀ s ∈ full, Unbroken s) :
    withoutLeadingColons (joinPath full) = joinPath full := by
  by_cases hEmpty : full = []
  · subst hEmpty
    rfl
  · obtain ⟨c, rest, hText, hColon⟩ := joinPath_head hEmpty h
    rw [withoutLeadingColons, hText, dropLeadingColons_of_head hColon, ← hText,
      String.ofList_toList]

theorem annotationNames_distinct : (annotationNames.map (·.1)).Nodup := by decide

theorem annotationNames_unbroken : ∀ entry ∈ annotationNames, Unbroken entry.1 := by
  have hAll : ∀ entry ∈ annotationNames, entry.1.toList ≠ [] ∧ ':' ∉ entry.1.toList := by decide
  exact fun entry hEntry => ⟨(hAll entry hEntry).1, (hAll entry hEntry).2⟩

namespace AnnotationTable

variable {space : List String} {items : List Item}

theorem lookup_eq_some_iff (hNonempty : space ≠ []) (hSpace : ∀ s ∈ space, Unbroken s)
    {full : List String} (hFull : ∀ s ∈ full, Unbroken s) {kind : AnnotationKind} :
    (ofNamespace (joinPath space)).lookup (joinPath full) = some kind ↔
      ∃ name, (name, kind) ∈ annotationNames ∧ full = space ++ [name] := by
  have hMatches (entry : String × AnnotationKind) (hEntry : entry ∈ annotationNames) :
      ((joinPath space ++ "::" ++ entry.1 == joinPath full) = true) ↔
        full = space ++ [entry.1] := by
    have hBelow : ∀ s ∈ space ++ [entry.1], Unbroken s := List.forall_mem_append.mpr
      ⟨hSpace, List.forall_mem_singleton.mpr (annotationNames_unbroken entry hEntry)⟩
    rw [beq_iff_eq, ← joinPath_snoc hNonempty, eq_comm,
      joinPath_eq_iff hFull hBelow (List.append_ne_nil_of_right_ne_nil _ (List.cons_ne_nil _ _))]
  rw [lookup, ofNamespace, withoutLeadingColons_joinPath hSpace,
    withoutLeadingColons_joinPath hFull, Option.map_eq_some_iff]
  constructor
  · rintro ⟨entry, hFound, rfl⟩
    have hMem := List.mem_of_find?_eq_some hFound
    exact ⟨entry.1, hMem, (hMatches entry hMem).mp (List.find?_some
      (p := fun e : String × AnnotationKind => joinPath space ++ "::" ++ e.1 == joinPath full)
      hFound)⟩
  · rintro ⟨name, hMem, rfl⟩
    refine ⟨(name, kind), find?_of_distinct annotationNames_distinct (fun entry hEntry => ?_) hMem,
      rfl⟩
    rw [hMatches entry hEntry]
    simpa using eq_comm

/-- An attribute means what the table says of one of its full names. -/
theorem classify_eq_some_iff (hNonempty : space ≠ []) (hSpace : ∀ s ∈ space, IsSegment s)
    (hItems : UsesSegments items) {a : Source.Attribute} (ha : ∀ s ∈ a.path.segments, IsSegment s)
    {kind : AnnotationKind} :
    (ofNamespace (joinPath space)).classify (.ofItems items) a = some kind ↔
      ∃ name, (name, kind) ∈ annotationNames ∧ FullName items a.path (space ++ [name]) := by
  have hLookup {full : List String} (hFull : FullName items a.path full) {kind : AnnotationKind} :
      (ofNamespace (joinPath space)).lookup (joinPath full) = some kind ↔
        ∃ name, (name, kind) ∈ annotationNames ∧ full = space ++ [name] :=
    lookup_eq_some_iff hNonempty (fun s hs => (hSpace s hs).unbroken)
      fun s hs => (hFull.segments hItems ha s hs).unbroken
  have hSound {kind : AnnotationKind}
      (h : (ofNamespace (joinPath space)).classify (.ofItems items) a = some kind) :
      ∃ name, (name, kind) ∈ annotationNames ∧ FullName items a.path (space ++ [name]) := by
    obtain ⟨candidate, hCandidate, hFound⟩ := List.exists_of_findSome?_eq_some h
    obtain ⟨full, hFull, rfl⟩ := mem_candidates_iff.mp hCandidate
    obtain ⟨name, hName, rfl⟩ := (hLookup hFull).mp hFound
    exact ⟨name, hName, hFull⟩
  refine ⟨hSound, ?_⟩
  rintro ⟨name, hName, hFull⟩
  have hFound := (hLookup hFull).mpr ⟨name, hName, rfl⟩
  cases hKind : (ofNamespace (joinPath space)).classify (.ofItems items) a with
  | none =>
    have hNone := List.findSome?_eq_none_iff.mp hKind _ (mem_candidates_iff.mpr ⟨_, hFull, rfl⟩)
    rw [hFound] at hNone
    cases hNone
  | some other =>
    obtain ⟨name', hName', hFull'⟩ := hSound hKind
    have hLast := hFull.getLast?_eq hFull'
    obtain rfl : name = name' := by simpa using hLast
    have hEntries := List.inj_on_of_nodup_map annotationNames_distinct hName' hName rfl
    rw [(Prod.mk.inj hEntries).2]

end AnnotationTable

/-! ## Documented spellings -/

/-- The ways to write the attribute of a name below a namespace, with the imports that they need.
No other import may introduce the same local name. -/
inductive Spelling (items : List Item) (space : List String) (name : String) : PlainPath → Prop
  /-- `#[::space::name]` -/
  | global : Spelling items space name ⟨true, space ++ [name]⟩
  /-- `#[space::name]` -/
  | written {first : String} {rest : List String} (hSpace : space = first :: rest)
      (h : NotImported items first) : Spelling items space name ⟨false, space ++ [name]⟩
  /-- `#[name]` after `use space::name` -/
  | imported (hUse : Uses items space (.name name))
      (hOnly : ∀ other, Imported items (.binding name other) → other = space ++ [name]) :
    Spelling items space name ⟨false, [name]⟩
  /-- `#[localName]` after `use space::name as localName` -/
  | renamed {localName : String} (hUse : Uses items space (.rename name localName))
      (hLocal : localName ≠ "_")
      (hOnly : ∀ other, Imported items (.binding localName other) → other = space ++ [name]) :
    Spelling items space name ⟨false, [localName]⟩
  /-- `#[localName::name]` after `use space as localName` -/
  | below {front : List String} {last localName : String} (hSpace : space = front ++ [last])
      (hUse : Uses items front (.rename last localName)) (hLocal : localName ≠ "_")
      (hOnly : ∀ other, Imported items (.binding localName other) → other = space) :
    Spelling items space name ⟨false, [localName, name]⟩
  /-- `#[name]` after `use space::*` -/
  | glob (hUse : Uses items space .glob) (h : NotImported items name) :
    Spelling items space name ⟨false, [name]⟩

theorem Spelling.fullName {items : List Item} {space : List String} {name : String}
    {path : PlainPath} (h : Spelling items space name path) (hNonempty : space ≠ [])
    (hSelf : name ≠ "self") (hSpace : "self" ∉ space) :
    FullName items path (space ++ [name]) := by
  cases h with
  | global =>
    obtain ⟨first, rest, rfl⟩ := List.exists_cons_of_ne_nil hNonempty
    exact .global
  | written hParts h =>
    subst hParts
    exact .written h
  | imported hUse hOnly =>
    have hForce := inForce_of_only ⟨_, _, hUse, .name hSelf⟩ hOnly
    have hFull : FullName items ⟨false, [name]⟩ ((space ++ [name]) ++ []) := .imported hForce
    rwa [List.append_nil] at hFull
  | @renamed localName hUse hLocal hOnly =>
    have hForce := inForce_of_only ⟨_, _, hUse, .rename hSelf hLocal⟩ hOnly
    have hFull : FullName items ⟨false, [localName]⟩ ((space ++ [name]) ++ []) := .imported hForce
    rwa [List.append_nil] at hFull
  | @below front last localName hParts hUse hLocal hOnly =>
    subst hParts
    have hLast : last ≠ "self" := by
      rintro rfl
      exact hSpace (by simp)
    exact .imported (inForce_of_only ⟨_, _, hUse, .rename hLast hLocal⟩ hOnly)
  | glob hUse h => exact .glob h ⟨_, _, hUse, .glob⟩

namespace AnnotationTable

theorem annotationNames_ne_self : ∀ entry ∈ annotationNames, entry.1 ≠ "self" := by decide

/-- An attribute is recognised only by a full name that is right below the namespace, and by every
documented spelling of such a name. -/
theorem classify_exact {space : List String} (hNonempty : space ≠ [])
    (hSpace : ∀ s ∈ space, IsName s) {items : List Item} (hItems : UsesSegments items)
    {a : Source.Attribute} (ha : ∀ s ∈ a.path.segments, IsSegment s) :
    (∀ kind, (ofNamespace (joinPath space)).classify (.ofItems items) a = some kind →
      ∃ name, (name, kind) ∈ annotationNames ∧ FullName items a.path (space ++ [name])) ∧
    (∀ first rest target, a.path = ⟨false, first :: rest⟩ → InForce items first target →
      (∀ entry ∈ annotationNames, target ++ rest ≠ space ++ [entry.1]) →
      (ofNamespace (joinPath space)).classify (.ofItems items) a = none) ∧
    ∀ name kind, (name, kind) ∈ annotationNames → Spelling items space name a.path →
      (ofNamespace (joinPath space)).classify (.ofItems items) a = some kind := by
  have hExact (kind : AnnotationKind) :
      (ofNamespace (joinPath space)).classify (.ofItems items) a = some kind ↔
        ∃ name, (name, kind) ∈ annotationNames ∧ FullName items a.path (space ++ [name]) :=
    classify_eq_some_iff hNonempty (fun s hs => (hSpace s hs).isSegment) hItems ha
  refine ⟨fun kind => (hExact kind).mp, ?_, ?_⟩
  · intro first rest target hPath hForce hElsewhere
    rw [Option.eq_none_iff_forall_ne_some]
    intro kind hKind
    obtain ⟨name, hName, hFull⟩ := (hExact kind).mp hKind
    rw [hPath] at hFull
    -- The first segment is imported, so that there is no other full name.
    generalize hNamed : space ++ [name] = full at hFull
    cases hFull with
    | imported h =>
      rw [h.unique hForce] at hNamed
      exact hElsewhere _ hName hNamed.symm
    | written h => exact h _ hForce.imported
    | glob h => exact h _ hForce.imported
  · intro name kind hName hSpelling
    have hSelf : "self" ∉ space := fun hMem => absurd (hSpace _ hMem).plain (by decide)
    exact (hExact kind).mpr
      ⟨name, hName, hSpelling.fullName hNonempty (annotationNames_ne_self _ hName) hSelf⟩

/-- A scope that knows the attributes by another name of their module, and another `get`. -/
def renamedScope : List Item :=
  [.use false (.path "web" (.rename "attributes" "api")),
    .use true (.path "other" (.group [.name "get", .glob]))]

theorem renamedScope_classify :
    (ofNamespace (joinPath ["web", "attributes"])).classify (.ofItems renamedScope)
        ⟨⟨false, ["api", "get"]⟩, .none⟩ = some (.verb .get) ∧
      (ofNamespace (joinPath ["web", "attributes"])).classify (.ofItems renamedScope)
        ⟨⟨false, ["get"]⟩, .none⟩ = none := by
  have hLeaves : renamedScope.flatMap Imports.leavesOf =
      [.binding "api" ["web", "attributes"], .binding "get" ["other", "get"], .glob ["other"]] := rfl
  have hSpace : ∀ s ∈ ["web", "attributes"], IsName s := by
    have hNames : ["web", "attributes"].all Source.isName = true := by decide
    exact fun s hs => Source.isName_iff.mp (List.all_eq_true.mp hNames s hs)
  have hItems : UsesSegments renamedScope := by
    have hTrees : renamedScope.all (·.wellNamed) = true := by decide
    exact fun leadingColon tree hMem => List.all_eq_true.mp hTrees _ hMem
  have hSegments : ∀ s ∈ ["api", "get"], IsSegment s := by
    have hNames : ["api", "get"].all Source.isSegment = true := by decide
    exact fun s hs => Source.isSegment_iff.mp (List.all_eq_true.mp hNames s hs)
  have hApi : Spelling renamedScope ["web", "attributes"] "get" ⟨false, ["api", "get"]⟩ := by
    refine @Spelling.below _ _ _ ["web"] "attributes" "api" rfl ?_ (by decide) fun other hOther => ?_
    · exact ⟨false, _, List.mem_cons_self, .path .here⟩
    · rw [← Imports.mem_leavesOf_iff, hLeaves] at hOther
      simpa using hOther
  have hGet : InForce renamedScope "get" ["other", "get"] :=
    ⟨[.binding "api" ["web", "attributes"]], [.glob ["other"]], hLeaves, by simp⟩
  exact ⟨(classify_exact (by simp) hSpace hItems hSegments).2.2 "get" _ (by decide) hApi,
    (classify_exact (by simp) hSpace hItems (by simpa using hSegments "get" (by simp))).2.1 _ _ _ rfl
      hGet (by decide)⟩

end AnnotationTable
end TraitClient
