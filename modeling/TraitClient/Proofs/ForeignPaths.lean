import TraitClient.Extraction.Hierarchy
import TraitClient.Proofs.ServiceNames

/-!
# Paths of other crates

A path is another crate's if it is written with `::` in front, or starts with a name that a `use`
item with `::` in front imports.  Such a path is told from the paths of the crate exactly if it goes
below the name of its crate and no child module of the declaring module has that name: then its
anchored form starts with `::`, and no bound is taken for a scanned trait.
-/
namespace TraitClient

open Code (IsName IsSegment)

/-! ## Where names are imported from -/

structure ImportSource where
  name : String
  isGlobal : Bool
  target : List String
  deriving DecidableEq

namespace Imports

def leafTarget? (name : String) : ImportLeaf → Option (List String)
  | .binding bound target => if bound = name then some target else none
  | .glob _ => none

def leafSource? (isGlobal : Bool) : ImportLeaf → Option ImportSource
  | .binding name target => some ⟨name, isGlobal, target⟩
  | .glob _ => none

def sources : Source.Item → List ImportSource
  | .use isGlobal tree => (leaves [] tree).filterMap (leafSource? isGlobal)
  | _ => []

def source? (items : List Source.Item) (name : String) : Option ImportSource :=
  (items.flatMap sources).reverse.find? fun s => s.name == name

theorem target?_add (imports : Imports) (leaf : ImportLeaf) (name : String) :
    (imports.add leaf).target? name = (leafTarget? name leaf).or (imports.target? name) := by
  cases leaf with
  | glob path => rfl
  | binding bound target =>
    by_cases hSame : bound = name
    · simp [add, target?, leafTarget?, hSame]
    · have hKept (entry : String × List String) :
          (entry.1 != bound ∧ entry.1 == name) ↔ entry.1 == name := by
        refine ⟨And.right, fun hEntry => ⟨?_, hEntry⟩⟩
        simpa [beq_iff_eq.mp hEntry] using Ne.symm hSame
      have hBound : (bound == name) = false := beq_false_of_ne hSame
      simp only [add, target?, leafTarget?, List.find?_cons, hBound, List.find?_filter, hKept,
        if_neg hSame, Option.none_or, Bool.decide_eq_true]

theorem target?_foldl_add (found : List ImportLeaf) (imports : Imports) (name : String) :
    (found.foldl add imports).target? name =
      (found.reverse.findSome? (leafTarget? name)).or (imports.target? name) := by
  induction found generalizing imports with
  | nil => rfl
  | cons leaf found ih =>
    rw [List.foldl_cons, ih, target?_add, List.reverse_cons, List.findSome?_append, Option.or_assoc]
    cases hLeaf : leafTarget? name leaf <;> simp [hLeaf]

theorem findSome?_leafTarget? (isGlobal : Bool) (found : List ImportLeaf) (name : String) :
    found.findSome? (leafTarget? name) =
      ((found.filterMap (leafSource? isGlobal)).find? fun s => s.name == name).map (·.target) := by
  induction found with
  | nil => rfl
  | cons leaf found ih =>
    cases leaf with
    | glob path => exact ih
    | binding bound target =>
      have hSource : ((ImportLeaf.binding bound target :: found).filterMap (leafSource? isGlobal)) =
          ⟨bound, isGlobal, target⟩ :: found.filterMap (leafSource? isGlobal) := rfl
      rw [List.findSome?_cons, leafTarget?, hSource, List.find?_cons]
      by_cases hSame : bound = name
      · simp [hSame]
      · rw [if_neg hSame, beq_false_of_ne hSame]
        exact ih

theorem findSome?_leavesOf (item : Source.Item) (name : String) :
    (leavesOf item).reverse.findSome? (leafTarget? name) =
      ((sources item).reverse.find? fun s => s.name == name).map (·.target) := by
  cases item with
  | use isGlobal tree =>
    rw [leavesOf, sources, ← List.filterMap_reverse]
    exact findSome?_leafTarget? isGlobal _ name
  | module | trait | other => rfl

theorem target?_ofItems (items : List Source.Item) (name : String) :
    (ofItems items).target? name = (source? items name).map (·.target) := by
  rw [ofItems_eq, target?_foldl_add, source?]
  have hEmpty : empty.target? name = none := rfl
  rw [hEmpty, Option.or_none]
  induction items with
  | nil => rfl
  | cons item items ih =>
    rw [List.flatMap_cons, List.flatMap_cons, List.reverse_append, List.reverse_append,
      List.findSome?_append, List.find?_append, ih, findSome?_leavesOf]
    cases List.find? (fun s => s.name == name) (items.flatMap sources).reverse <;> rfl

end Imports

/-! ## Paths of other crates -/

/-- A written path that starts outside of the crate, with its full name. -/
inductive ForeignPath (items : List Source.Item) : Bool → List String → List String → Prop
  | written {first : String} {rest : List String} :
    ForeignPath items true (first :: rest) (first :: rest)
  | imported {first : String} {rest target : List String}
      (h : Imports.source? items first = some ⟨first, true, target⟩) :
    ForeignPath items false (first :: rest) (target ++ rest)

/-- Words by which a path starts at a module and not at a crate. -/
def moduleWords : List String := ["crate", "self", "super"]

theorem not_mem_moduleWords {name : String} :
    name ∉ moduleWords ↔ name ≠ "crate" ∧ name ≠ "self" ∧ name ≠ "super" := by
  simp [moduleWords]

/-- Whether a full name can only be read as that of another crate: it goes below the name of a
crate, which no child module shares. -/
inductive NamesCrate (modulePath : List String) (modules : List (List String)) : List String → Prop
  | mk {first second : String} {rest : List String} (word : first ∉ moduleWords)
      (child : modulePath ++ [first] ∉ modules) : NamesCrate modulePath modules (first :: second :: rest)

section

variable {items : List Source.Item} {leadingColon : Bool} {segments full : List String}

theorem ForeignPath.qualify (h : ForeignPath items leadingColon segments full) :
    (Imports.ofItems items).qualify segments leadingColon = joinPath full := by
  cases h with
  | written => rfl
  | @imported first rest target hSource =>
    have hTarget : (Imports.ofItems items).target? first = some target := by
      rw [Imports.target?_ofItems, hSource, Option.map_some]
    simp only [Imports.qualify, Bool.false_eq_true, if_false, hTarget]

theorem ForeignPath.candidates (h : ForeignPath items false segments full) :
    (Imports.ofItems items).candidates segments false = [joinPath full] := by
  cases h with
  | @imported first rest target hSource =>
    have hTarget : (Imports.ofItems items).target? first = some target := by
      rw [Imports.target?_ofItems, hSource, Option.map_some]
    simp only [Imports.candidates, Bool.false_eq_true, if_false, hTarget]

theorem joinPath_ne_global {segments : List String} (hNonempty : segments ≠ [])
    (h : ∀ s ∈ segments, Unbroken s) (path : String) : joinPath segments ≠ "::" ++ path := by
  intro hSame
  obtain ⟨c, rest, hText, hColon⟩ := joinPath_head hNonempty h
  rw [hSame, String.toList_append] at hText
  exact hColon (List.cons.inj hText).1.symm

theorem crateLocal_head (base rest : List String) :
    ∃ s, (crateLocal base rest).toList = 'c' :: s := by
  cases hBelow : base ++ rest with
  | nil =>
    rw [crateLocal, List.cons_append, hBelow, joinPath_singleton]
    exact ⟨_, rfl⟩
  | cons a as =>
    rw [crateLocal, List.cons_append, hBelow, joinPath_cons_cons, String.toList_append,
      String.toList_append]
    exact ⟨_, rfl⟩

theorem crateLocal_ne_global (base rest : List String) (path : String) :
    crateLocal base rest ≠ "::" ++ path := by
  intro hSame
  obtain ⟨s, hHead⟩ := crateLocal_head base rest
  rw [hSame, String.toList_append] at hHead
  exact absurd (List.cons.inj hHead).1 (by decide)

/-- A full name is anchored outside of the crate exactly if it can be read in no other way. -/
theorem anchorPath_eq_global_iff {modulePath : List String} {modules : List (List String)}
    (hFull : ∀ s ∈ full, Unbroken s) :
    anchorPath (joinPath full) modulePath modules = "::" ++ joinPath full ↔
      NamesCrate modulePath modules full := by
  by_cases hNonempty : full = []
  · subst hNonempty
    have hAnchor : anchorPath (joinPath []) modulePath modules = crateLocal modulePath [""] := rfl
    rw [hAnchor]
    exact ⟨fun hSame => absurd hSame (crateLocal_ne_global _ _ _), nofun⟩
  have hSame := joinPath_ne_global hNonempty hFull (joinPath full)
  have hAnchoring := anchorPath_joinPath hNonempty hFull modulePath modules
  generalize anchorPath (joinPath full) modulePath modules = anchored at hAnchoring ⊢
  cases hAnchoring with
  | crate =>
    refine iff_of_false hSame ?_
    rintro ⟨hWord, _⟩
    exact (not_mem_moduleWords.mp hWord).1 rfl
  | climbs hMoves =>
    refine iff_of_false (crateLocal_ne_global _ _ _) ?_
    rintro ⟨hWord, _⟩
    rcases hMoves with rfl | rfl
    · exact (not_mem_moduleWords.mp hWord).2.1 rfl
    · exact (not_mem_moduleWords.mp hWord).2.2 rfl
  | builtIn => exact iff_of_false hSame nofun
  | lone => exact iff_of_false (crateLocal_ne_global _ _ _) nofun
  | child _ hChild =>
    refine iff_of_false (crateLocal_ne_global _ _ _) ?_
    rintro ⟨_, hNoChild⟩
    exact hNoChild hChild
  | foreign hWord hNoChild =>
    exact iff_of_true rfl ⟨not_mem_moduleWords.mpr hWord, hNoChild⟩

/-! ## Types and bounds -/

def writtenPath (leadingColon : Bool) (segments : List String) : String :=
  (if leadingColon then "::" else "") ++ joinPath segments

theorem pathSegments_writtenPath (hNonempty : segments ≠ []) (h : ∀ s ∈ segments, IsSegment s) :
    Code.pathSegments (writtenPath leadingColon segments) = segments := by
  have hUnbroken : ∀ s ∈ segments, Unbroken s := fun s hs => (h s hs).unbroken
  cases leadingColon with
  | true => exact Code.pathSegments_global hNonempty hUnbroken
  | false => simpa [writtenPath] using Code.pathSegments_joinPath hNonempty hUnbroken

theorem isGlobalPath_writtenPath (hNonempty : segments ≠ []) (h : ∀ s ∈ segments, IsSegment s) :
    Code.isGlobalPath (writtenPath leadingColon segments) = leadingColon := by
  cases leadingColon with
  | true => exact Code.isGlobalPath_global segments
  | false =>
    simpa [writtenPath] using Code.isGlobalPath_joinPath hNonempty fun s hs => (h s hs).unbroken

theorem writtenPath_ne_unit (hNonempty : segments ≠ []) (h : ∀ s ∈ segments, IsSegment s) :
    writtenPath leadingColon segments ≠ "()" := by
  intro hUnit
  have hSegments := @pathSegments_writtenPath leadingColon segments hNonempty h
  have hUnits : Code.pathSegments "()" = ["()"] := by decide
  rw [hUnit, hUnits] at hSegments
  have hToken := (h "()" (hSegments ▸ List.mem_singleton_self _)).token
  exact absurd hToken (by decide)

theorem Imports.pathType_eq_ok {imports : Imports} {tokens : Source.Tokens} {arguments : List TypeRef}
    {t : TypeRef} (h : imports.pathType tokens leadingColon segments arguments = .ok t) :
    (isOptionName (imports.qualify segments leadingColon) = true ∧ t.nullable = true) ∨
      t = { TypeRef.named (imports.qualify segments leadingColon)
        (writtenPath leadingColon segments) with arguments } := by
  unfold pathType at h
  dsimp only at h
  unfold writtenPath
  generalize (if leadingColon then "::" else "") ++ joinPath segments = written at h ⊢
  split at h
  · rename_i inner hOption
    split at h
    · cases h
    · cases h
      exact .inl ⟨hOption, rfl⟩
  · cases h
    exact .inr rfl

theorem Imports.resolve_path {imports : Imports} {tokens : Source.Tokens}
    {written : List Source.TypeSegment} {t : TypeRef}
    (h : imports.resolve (.path tokens leadingColon written) = .ok t) :
    (isOptionName (imports.qualify (written.map (·.name)) leadingColon) = true ∧
        t.nullable = true) ∨
      ∃ arguments, t = { TypeRef.named (imports.qualify (written.map (·.name)) leadingColon)
        (writtenPath leadingColon (written.map (·.name))) with arguments } := by
  rw [Imports.resolve] at h
  split at h
  · cases h
  · obtain ⟨arguments, _, h⟩ := bind_eq_ok h
    exact (pathType_eq_ok h).imp_right fun hNamed => ⟨arguments, hNamed⟩

def bareSegment (name : String) : Source.TypeSegment := .mk name .none

def bareType (leadingColon : Bool) (segments : List String) : Source.TypeExpr :=
  .path [] leadingColon (segments.map bareSegment)

theorem map_name_bareSegment (segments : List String) :
    (segments.map bareSegment).map (·.name) = segments := by
  rw [List.map_map]
  exact List.map_id segments

theorem Imports.resolveLast_bare (imports : Imports) (tokens : Source.Tokens)
    (hNonempty : segments ≠ []) :
    imports.resolveLast tokens (segments.map bareSegment) = .ok [] := by
  induction segments with
  | nil => exact absurd rfl hNonempty
  | cons a rest ih =>
    cases rest with
    | nil => rfl
    | cons b rest => exact ih (List.cons_ne_nil _ _)

theorem Imports.resolve_bareSegments (imports : Imports) (tokens : Source.Tokens)
    (hNonempty : segments ≠ []) :
    imports.resolve (.path tokens leadingColon (segments.map bareSegment)) =
      .ok (TypeRef.named (imports.qualify segments leadingColon)
        (writtenPath leadingColon segments)) := by
  have hBare : ((segments.map bareSegment).dropLast.any hasArguments) = false := by
    rw [← List.map_dropLast, List.any_map]
    exact List.any_eq_false.mpr fun s _ => Bool.false_ne_true
  rw [resolve, hBare, resolveLast_bare imports tokens hNonempty, map_name_bareSegment]
  cases hOption : isOptionName (imports.qualify segments leadingColon) <;>
    simp [bind, Except.bind, pathType, hOption, writtenPath, TypeRef.named]

theorem Imports.resolve_bareType (imports : Imports) (hNonempty : segments ≠ []) :
    imports.resolve (bareType leadingColon segments) =
      .ok (TypeRef.named (imports.qualify segments leadingColon)
        (writtenPath leadingColon segments)) := resolve_bareSegments imports [] hNonempty

end

namespace Extraction

variable {items : List Source.Item} {leadingColon : Bool} {segments full : List String}

/-- What is promised of another crate's path in the scope of a trait: a type that is written by it
is respelled from its crate on, names of the prelude apart, and a bound by it is no scanned
trait. -/
structure KeptOutside (index : TraitIndex) (e : TraitEntry) (leadingColon : Bool)
    (segments full : List String) : Prop where
  types : ∀ (tokens : Source.Tokens) (written : List Source.TypeSegment) (t : TypeRef),
    written.map (·.name) = segments → e.imports.resolve (.path tokens leadingColon written) = .ok t →
    (isOptionName (joinPath full) = true ∧ t.nullable = true) ∨
      isPrelude t.path t.qualifiedName = true ∨
      (t.anchored e.modulePath index.modules).path = "::" ++ joinPath full
  bounds : supertrait? index e ⟨leadingColon, segments⟩ = none

theorem find?_global (index : TraitIndex) (path : String) : index.find? ("::" ++ path) = none := by
  refine List.find?_eq_none.mpr fun e _ hSame => ?_
  have hPath : e.cratePath = crateLocal e.modulePath [e.declaration.name] := rfl
  rw [hPath] at hSame
  exact crateLocal_ne_global _ _ _ (beq_iff_eq.mp hSame)

theorem segments_of_foreign (hItems : ∀ item ∈ items, item.wellNamed = true)
    (hSegments : ∀ s ∈ segments, IsSegment s) (h : ForeignPath items leadingColon segments full) :
    ∀ s ∈ full, IsSegment s := by
  cases h with
  | written => exact hSegments
  | @imported first rest target hSource =>
    obtain ⟨_, hRest⟩ := List.forall_mem_cons.mp hSegments
    refine List.forall_mem_append.mpr ⟨?_, hRest⟩
    have hTarget : (Imports.ofItems items).target? first = some target := by
      rw [Imports.target?_ofItems, hSource, Option.map_some]
    obtain ⟨entry, hFind, rfl⟩ := Option.map_eq_some_iff.mp hTarget
    exact Imports.ofItems_spelled hItems entry (List.mem_of_find?_eq_some hFind)

theorem anchored_foreign_path {modulePath : List String} {modules : List (List String)}
    {arguments : List TypeRef} (hNonempty : segments ≠ []) (hSegments : ∀ s ∈ segments, IsSegment s)
    (hFull : ∀ s ∈ full, IsSegment s)
    (hPrelude : isPrelude (writtenPath leadingColon segments) (joinPath full) = false) :
    (({ TypeRef.named (joinPath full) (writtenPath leadingColon segments) with
      arguments } : TypeRef).anchored modulePath modules).path =
        anchorPath (joinPath full) modulePath modules := by
  have hSlice : (joinPath full == TypeRef.sliceName) = false :=
    beq_false_of_ne (joinPath_ne_sliceName hFull)
  have hUnit : (writtenPath leadingColon segments == "()") = false :=
    beq_false_of_ne (writtenPath_ne_unit hNonempty hSegments)
  simp only [TypeRef.named, TypeRef.anchored, hSlice, hUnit, hPrelude, Bool.or_self,
    Bool.false_eq_true, if_false]

theorem keptOutside_of_namesCrate {index : TraitIndex} {e : TraitEntry}
    (hImports : e.imports = .ofItems items) (hSegments : ∀ s ∈ segments, IsSegment s)
    (hFull : ∀ s ∈ full, IsSegment s) (hForeign : ForeignPath items leadingColon segments full)
    (hNames : NamesCrate e.modulePath index.modules full) :
    KeptOutside index e leadingColon segments full := by
  have hNonempty : segments ≠ [] := by cases hForeign <;> exact List.cons_ne_nil _ _
  have hAnchor := (anchorPath_eq_global_iff fun s hs => (hFull s hs).unbroken).mpr hNames
  constructor
  · intro tokens written t hWritten hResolved
    subst hWritten
    have hQualify := hForeign.qualify
    rw [← hImports] at hQualify
    rcases Imports.resolve_path hResolved with hOption | ⟨arguments, rfl⟩
    · rw [hQualify] at hOption
      exact .inl hOption
    · refine .inr ?_
      rw [hQualify]
      cases hPrelude : isPrelude (writtenPath leadingColon (written.map (·.name))) (joinPath full) with
      | true => exact .inl hPrelude
      | false =>
        refine .inr ?_
        rw [anchored_foreign_path hNonempty hSegments hFull hPrelude]
        exact hAnchor
  · cases leadingColon with
    | true => rfl
    | false =>
      have hCandidates := hForeign.candidates
      rw [← hImports] at hCandidates
      have hFound : supertrait? index e ⟨false, segments⟩ =
          (index.find? (anchorPath (joinPath full) e.modulePath index.modules)).or none := by
        simp [supertrait?, hCandidates]
      rw [hFound, hAnchor, find?_global, Option.or_none]

theorem namesCrate_of_keptOutside {index : TraitIndex} {e : TraitEntry}
    (hImports : e.imports = .ofItems items) (hSegments : ∀ s ∈ segments, IsSegment s)
    (hFull : ∀ s ∈ full, IsSegment s) (hForeign : ForeignPath items leadingColon segments full)
    (hPrelude : isPrelude (writtenPath leadingColon segments) (joinPath full) = false)
    (hKept : KeptOutside index e leadingColon segments full) :
    NamesCrate e.modulePath index.modules full := by
  have hNonempty : segments ≠ [] := by cases hForeign <;> exact List.cons_ne_nil _ _
  -- A type that is nothing but the path has to be respelled.
  have hResolved : e.imports.resolve (bareType leadingColon segments) =
      .ok (TypeRef.named (joinPath full) (writtenPath leadingColon segments)) := by
    rw [Imports.resolve_bareType _ hNonempty, hImports, hForeign.qualify]
  rcases hKept.types _ _ _ (map_name_bareSegment segments) hResolved with
    hOption | hKeeps | hRespelled
  · cases hOption.2
  · exact absurd (hKeeps.symm.trans hPrelude) (by decide)
  · have hPath := @anchored_foreign_path _ _ _ e.modulePath index.modules [] hNonempty hSegments
      hFull hPrelude
    exact (anchorPath_eq_global_iff fun s hs => (hFull s hs).unbroken).mp
      (hPath.symm.trans hRespelled)

/-- A path of another crate is kept outside of the crate if no other reading of its full name comes
before that one, and only then unless it is a name of the prelude. -/
theorem foreignPath_keptOutside {index : TraitIndex} {e : TraitEntry}
    (hImports : e.imports = .ofItems items) (hItems : ∀ item ∈ items, item.wellNamed = true)
    (hSegments : ∀ s ∈ segments, IsSegment s)
    (hForeign : ForeignPath items leadingColon segments full) :
    (NamesCrate e.modulePath index.modules full → KeptOutside index e leadingColon segments full) ∧
      (isPrelude (writtenPath leadingColon segments) (joinPath full) = false →
        KeptOutside index e leadingColon segments full →
          NamesCrate e.modulePath index.modules full) := by
  have hFull := segments_of_foreign hItems hSegments hForeign
  exact ⟨keptOutside_of_namesCrate hImports hSegments hFull hForeign,
    namesCrate_of_keptOutside hImports hSegments hFull hForeign⟩

def mirrorItems : List Source.Item :=
  [.use true (.path "shared" (.name "Base")), .trait (getTrait "DocsApi" ["Base"] ["docs"])]

/-- The same with a child module of the name of that crate, which has a `Base` too. -/
def mirrorFile (hasChild : Bool) : SourceFile :=
  ⟨"src/api.rs", ["api"],
    mirrorItems ++ if hasChild then [.module "shared" (some [.trait (getTrait "Base" [] ["ping"])])]
      else []⟩

def mirrorIndex (hasChild : Bool) : TraitIndex := .ofFiles [mirrorFile hasChild]

def mirrorService : TraitEntry where
  declaration := getTrait "DocsApi" ["Base"] ["docs"]
  file := "src/api.rs"
  modulePath := ["api"]
  imports := .ofItems mirrorItems

theorem mirrorService_keptOutside :
    ForeignPath mirrorItems false ["Base"] ["shared", "Base"] ∧
      KeptOutside (mirrorIndex false) mirrorService false ["Base"] ["shared", "Base"] ∧
      KeptOutside (mirrorIndex false) mirrorService true ["shared", "Page"] ["shared", "Page"] := by
  have hItems : ∀ item ∈ mirrorItems, item.wellNamed = true := by decide +kernel
  have hImported : ForeignPath mirrorItems false ["Base"] ["shared", "Base"] :=
    @ForeignPath.imported _ "Base" [] ["shared", "Base"] (by decide +kernel)
  have hWritten : ForeignPath mirrorItems true ["shared", "Page"] ["shared", "Page"] := .written
  have hBase : IsSegment "Base" := Source.isSegment_iff.mp (by decide)
  have hShared : IsSegment "shared" := Source.isSegment_iff.mp (by decide)
  have hPage : IsSegment "Page" := Source.isSegment_iff.mp (by decide)
  refine ⟨hImported, ?_, ?_⟩
  · exact (foreignPath_keptOutside rfl hItems (by simpa using hBase) hImported).1
      (.mk (by decide) (by decide +kernel))
  · exact (foreignPath_keptOutside rfl hItems (by simpa using ⟨hShared, hPage⟩) hWritten).1
      (.mk (by decide) (by decide +kernel))

/-- With the child module both paths lead into the crate. -/
theorem mirrorService_leadsInside :
    ForeignPath mirrorItems false ["Base"] ["shared", "Base"] ∧
      ¬KeptOutside (mirrorIndex true) mirrorService false ["Base"] ["shared", "Base"] ∧
      ¬KeptOutside (mirrorIndex true) mirrorService true ["shared", "Page"] ["shared", "Page"] := by
  refine ⟨@ForeignPath.imported _ "Base" [] ["shared", "Base"] (by decide +kernel), ?_, ?_⟩
  · intro hKept
    have hTaken : (supertrait? (mirrorIndex true) mirrorService ⟨false, ["Base"]⟩).isSome = true := by
      decide +kernel
    rw [hKept.bounds] at hTaken
    cases hTaken
  · intro hKept
    rcases hKept.types [] [.mk "shared" .none, .mk "Page" .none]
      (.named "shared::Page" "::shared::Page") rfl rfl with hOption | hPrelude | hRespelled
    · exact absurd hOption.2 (by decide)
    · exact absurd hPrelude (by decide)
    · exact absurd hRespelled (by decide +kernel)

end Extraction
end TraitClient
