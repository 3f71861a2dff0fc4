import TraitClient.Proofs.AttributeNames
import TraitClient.Proofs.AnchoredPaths

/-!
# Imports through imports

A `use` item may start with a name that another item of its scope imports, and so may that one.  Of
such a chain only the first import is looked up.  What is reached through the chain is known by its
full name exactly if the imports behind the first one leave the name they are for as it is.
-/
namespace TraitClient

open Code (IsSegment isGlobalPath)
open Source (Item)
open Imports (UsesSegments)

/-! ## Chains -/

/-- Imports in force of which each starts with the name that the next one binds.  The last one
starts with `::` or with a name that no other import of the scope binds. -/
inductive ImportChain (items : List Item) : List ImportSource → Prop
  | last {s : ImportSource} {first : String} (h : Imports.source? items s.name = some s)
      (hStart : s.target.head? = some first)
      (hEnds : s.isGlobal = true ∨ ∀ t, Imports.source? items first = some t → t = s) :
    ImportChain items [s]
  | next {s t : ImportSource} {rest : List ImportSource}
      (h : Imports.source? items s.name = some s) (hLocal : s.isGlobal = false)
      (hStart : s.target.head? = some t.name) (hOther : t ≠ s)
      (hRest : ImportChain items (t :: rest)) : ImportChain items (s :: t :: rest)

def chainPath : List ImportSource → List String
  | [] => []
  | [s] => s.target
  | s :: t :: rest => chainPath (t :: rest) ++ s.target.tail

def chainIsGlobal (chain : List ImportSource) : Bool := chain.getLast?.any (·.isGlobal)

/-- What full segments mean in a module, if `::` may stand in front of them. -/
def fullMeaning (isGlobal : Bool) (modulePath : List String) (modules : List (List String))
    (full : List String) : PathMeaning :=
  if isGlobal then .outside full else segmentsMeaning modulePath modules full

/-- What is promised of the local name of a chain: paths that start with it are known by their full
names.  A type keeps its spelling if it is optional or of the prelude; a full name outside of the
crate has to look like one. -/
structure FollowsChain (items : List Item) (name : String) (chain : List ImportSource) : Prop where
  candidates : ∀ more : List String, (Imports.ofItems items).candidates (name :: more) false =
    [joinPath (chainPath chain ++ more)]
  qualify : ∀ more : List String, (Imports.ofItems items).qualify (name :: more) false =
    joinPath (chainPath chain ++ more)
  attributes : ∀ (table : AnnotationTable) (more : List String)
    (arguments : Source.AttributeArguments),
    table.classify (.ofItems items) ⟨⟨false, name :: more⟩, arguments⟩ =
      table.classify (.ofItems items) ⟨⟨true, chainPath chain ++ more⟩, arguments⟩
  types : ∀ (modulePath : List String) (modules : List (List String)) (tokens : Source.Tokens)
    (written : List Source.TypeSegment) (more : List String) (t : TypeRef),
    (∀ x ∈ modulePath, ':' ∉ x.toList) → (∀ x ∈ name :: more, IsSegment x) →
    (chainIsGlobal chain = true → NamesCrate modulePath modules (chainPath chain ++ more)) →
    written.map (·.name) = name :: more →
    (Imports.ofItems items).resolve (.path tokens false written) = .ok t →
    (isOptionName (joinPath (chainPath chain ++ more)) = true ∧ t.nullable = true) ∨
      isPrelude t.path (joinPath (chainPath chain ++ more)) = true ∨
      ∀ modulePath' modules', pathMeaning modulePath' modules' (t.anchored modulePath modules).path =
        fullMeaning (chainIsGlobal chain) modulePath modules (chainPath chain ++ more)

section

variable {items : List Item}

namespace ImportChain

theorem source {s : ImportSource} {rest : List ImportSource} (h : ImportChain items (s :: rest)) :
    Imports.source? items s.name = some s := by
  cases h with
  | last h => exact h
  | next h => exact h

theorem target_ne_nil {s : ImportSource} {rest : List ImportSource}
    (h : ImportChain items (s :: rest)) : s.target ≠ [] := by
  intro hEmpty
  cases h with
  | last _ hStart | next _ _ hStart =>
    rw [hEmpty] at hStart
    cases hStart

/-- The chain leads where its first import says if the imports behind that one lead from a name to
the name itself, and only then. -/
theorem chainPath_eq_target_iff {s : ImportSource} {rest : List ImportSource}
    (h : ImportChain items (s :: rest)) :
    chainPath (s :: rest) = s.target ↔
      ∀ t later, rest = t :: later → chainPath (t :: later) = [t.name] := by
  cases h with
  | last => simp [chainPath]
  | @next s t later _ _ hStart =>
    obtain ⟨others, hTarget⟩ := List.head?_eq_some_iff.mp hStart
    have hPath : chainPath (s :: t :: later) = chainPath (t :: later) ++ others := by
      rw [chainPath, hTarget, List.tail_cons]
    have hSplit : t.name :: others = [t.name] ++ others := rfl
    rw [hPath, hTarget, hSplit, List.append_cancel_right_eq]
    constructor
    · rintro hSame t' later' hRest
      cases hRest
      exact hSame
    · exact fun hSame => hSame t later rfl

end ImportChain

theorem target?_of_source {s : ImportSource} (h : Imports.source? items s.name = some s) :
    (Imports.ofItems items).target? s.name = some s.target := by
  rw [Imports.target?_ofItems, h, Option.map_some]

theorem target_segments (hItems : UsesSegments items) {s : ImportSource}
    (h : Imports.source? items s.name = some s) : ∀ x ∈ s.target, IsSegment x :=
  (Imports.target?_eq_some_iff.mp (target?_of_source h)).imported.segments hItems

theorem ImportChain.chainPath_segments (hItems : UsesSegments items) {chain : List ImportSource}
    (h : ImportChain items chain) : ∀ x ∈ chainPath chain, IsSegment x := by
  induction h with
  | last h => exact target_segments hItems h
  | next h _ _ _ _ ih =>
    exact List.forall_mem_append.mpr
      ⟨ih, fun x hx => target_segments hItems h x (List.mem_of_mem_tail hx)⟩

/-! ## What is looked up -/

theorem candidates_of_source {s : ImportSource} (h : Imports.source? items s.name = some s)
    (more : List String) :
    (Imports.ofItems items).candidates (s.name :: more) false = [joinPath (s.target ++ more)] := by
  simp only [Imports.candidates, Bool.false_eq_true, if_false, target?_of_source h]

theorem qualify_of_source {s : ImportSource} (h : Imports.source? items s.name = some s)
    (more : List String) :
    (Imports.ofItems items).qualify (s.name :: more) false = joinPath (s.target ++ more) := by
  simp only [Imports.qualify, Bool.false_eq_true, if_false, target?_of_source h]

theorem candidates_global (imports : Imports) {full : List String} (hNonempty : full ≠ []) :
    imports.candidates full true = [joinPath full] := by
  cases full with
  | nil => exact absurd rfl hNonempty
  | cons first rest => rfl

end

theorem NamesCrate.segmentsMeaning {modulePath full : List String} {modules : List (List String)}
    (h : NamesCrate modulePath modules full) :
    segmentsMeaning modulePath modules full = .outside full := by
  obtain ⟨hWord, hChild⟩ := h
  rw [segmentsMeaning_below hWord, if_neg hChild]

theorem pathMeaning_anchorPath_joinPath {modulePath full : List String}
    {modules : List (List String)} (hModule : ∀ x ∈ modulePath, ':' ∉ x.toList)
    (hNonempty : full ≠ []) (hFull : ∀ s ∈ full, IsSegment s) (modulePath' : List String)
    (modules' : List (List String)) :
    pathMeaning modulePath' modules' (anchorPath (joinPath full) modulePath modules) =
      segmentsMeaning modulePath modules full := by
  have hUnbroken : ∀ s ∈ full, Unbroken s := fun s hs => (hFull s hs).unbroken
  have hAnchor : AnchorOf (joinPath full)
      (segmentsMeaning modulePath modules (splitPath (joinPath full)))
      (anchorPath (joinPath full) modulePath modules) := anchorPath_anchorOf hModule
  rw [splitPath_joinPath hNonempty hUnbroken] at hAnchor
  exact hAnchor.pathMeaning (Code.isGlobalPath_joinPath hNonempty hUnbroken) modulePath' modules'

section

variable {items : List Item} {s : ImportSource} {rest : List ImportSource}

theorem ImportChain.follows (hItems : UsesSegments items) (h : ImportChain items (s :: rest))
    (hPath : chainPath (s :: rest) = s.target) : FollowsChain items s.name (s :: rest) := by
  have hNonempty (more : List String) : s.target ++ more ≠ [] :=
    List.append_ne_nil_of_left_ne_nil h.target_ne_nil more
  constructor <;> rw [hPath]
  · exact candidates_of_source h.source
  · exact qualify_of_source h.source
  · intro table more arguments
    rw [AnnotationTable.classify, AnnotationTable.classify, candidates_of_source h.source,
      candidates_global _ (hNonempty more)]
  · intro modulePath modules tokens written more t hModule hWritten hOutside hNames hResolved
    have hFull : ∀ x ∈ s.target ++ more, IsSegment x := List.forall_mem_append.mpr
      ⟨target_segments hItems h.source, fun x hx => hWritten x (List.mem_cons_of_mem _ hx)⟩
    rcases Imports.resolve_path hResolved with hOption | ⟨arguments, rfl⟩
    · rw [hNames, qualify_of_source h.source] at hOption
      exact .inl hOption
    · refine .inr ?_
      rw [hNames, qualify_of_source h.source]
      cases hPrelude : isPrelude (writtenPath false (s.name :: more)) (joinPath (s.target ++ more)) with
      | true => exact .inl hPrelude
      | false =>
        refine .inr fun modulePath' modules' => ?_
        rw [Extraction.anchored_foreign_path (List.cons_ne_nil _ _) hWritten hFull hPrelude,
          pathMeaning_anchorPath_joinPath hModule (hNonempty more) hFull, fullMeaning]
        split
        · rename_i hGlobal
          exact (hOutside hGlobal).segmentsMeaning
        · rfl

/-- Only the first import of a chain is looked up, so that the chain is followed exactly if the
others lead from a name to the name itself. -/
theorem importChain_followsFirst (hItems : UsesSegments items)
    (hChain : ImportChain items (s :: rest)) :
    (∀ more : List String,
        (Imports.ofItems items).candidates (s.name :: more) false = [joinPath (s.target ++ more)] ∧
          (Imports.ofItems items).qualify (s.name :: more) false = joinPath (s.target ++ more)) ∧
      (FollowsChain items s.name (s :: rest) ↔
        ∀ t later, rest = t :: later → chainPath (t :: later) = [t.name]) := by
  refine ⟨fun more => ⟨candidates_of_source hChain.source more,
    qualify_of_source hChain.source more⟩, ?_⟩
  rw [← hChain.chainPath_eq_target_iff]
  constructor
  · intro hFollows
    have hCandidates := hFollows.candidates []
    rw [candidates_of_source hChain.source, List.append_nil, List.append_nil,
      List.singleton_inj] at hCandidates
    have hTarget := target_segments hItems hChain.source
    have hPath := hChain.chainPath_segments hItems
    exact ((joinPath_eq_iff (fun x hx => (hPath x hx).unbroken)
      (fun x hx => (hTarget x hx).unbroken) hChain.target_ne_nil).mp hCandidates.symm)
  · exact hChain.follows hItems

/-- `use web;` and `use web::get as http;` -/
def crateUses : List Item := [.use false (.name "web"), .use false (.path "web" (.rename "get" "http"))]

theorem crateUses_followed :
    UsesSegments crateUses ∧
      ImportChain crateUses [⟨"http", false, ["web", "get"]⟩, ⟨"web", false, ["web"]⟩] ∧
      FollowsChain crateUses "http" [⟨"http", false, ["web", "get"]⟩, ⟨"web", false, ["web"]⟩] := by
  have hItems : UsesSegments crateUses := by
    have hTrees : crateUses.all (·.wellNamed) = true := by decide
    exact fun leadingColon tree hMem => List.all_eq_true.mp hTrees _ hMem
  have hWeb : Imports.source? crateUses "web" = some ⟨"web", false, ["web"]⟩ := by decide
  have hChain : ImportChain crateUses [⟨"http", false, ["web", "get"]⟩, ⟨"web", false, ["web"]⟩] := by
    refine .next (by decide) rfl rfl (by decide) (.last hWeb rfl (.inr fun t ht => ?_))
    exact (Option.some.inj (hWeb.symm.trans ht)).symm
  refine ⟨hItems, hChain, (importChain_followsFirst hItems hChain).2.mpr ?_⟩
  rintro t later hRest
  cases hRest
  rfl

/-- `use web as rest;` and `use rest::get;` -/
def verbUses : List Item := [.use false (.rename "web" "rest"), .use false (.path "rest" (.name "get"))]

/-- `use crate::models as m;` and `use m::Post;` -/
def postUses : List Item :=
  [.use false (.path "crate" (.rename "models" "m")), .use false (.path "m" (.name "Post"))]

theorem importChain_pair {items : List Item} {s t : ImportSource} {first : String}
    (h : Imports.source? items s.name = some s) (hLocal : s.isGlobal = false)
    (hStart : s.target.head? = some t.name) (hOther : t ≠ s)
    (hLast : Imports.source? items t.name = some t) (hFirst : t.target.head? = some first)
    (hEnds : Imports.source? items first = none) : ImportChain items [s, t] := by
  refine .next h hLocal hStart hOther (.last hLast hFirst (.inr fun u hu => ?_))
  rw [hEnds] at hu
  cases hu

/-- A verb that is not recognised, and a type that is taken for another crate's. -/
theorem renamedModules_notFollowed :
    (ImportChain verbUses [⟨"get", false, ["rest", "get"]⟩, ⟨"rest", false, ["web"]⟩] ∧
      (AnnotationTable.ofNamespace "web").classify (.ofItems verbUses)
        ⟨⟨false, ["get"]⟩, .none⟩ = none ∧
      (AnnotationTable.ofNamespace "web").classify (.ofItems verbUses)
        ⟨⟨true, ["web", "get"]⟩, .none⟩ = some (.verb .get) ∧
      ¬FollowsChain verbUses "get" [⟨"get", false, ["rest", "get"]⟩, ⟨"rest", false, ["web"]⟩]) ∧
    (ImportChain postUses [⟨"Post", false, ["m", "Post"]⟩, ⟨"m", false, ["crate", "models"]⟩] ∧
      chainPath [⟨"Post", false, ["m", "Post"]⟩, ⟨"m", false, ["crate", "models"]⟩] =
        ["crate", "models", "Post"] ∧
      anchorPath ((Imports.ofItems postUses).qualify ["Post"] false) ["api"] [["api"], ["models"]] =
        "::m::Post" ∧
      anchorPath "crate::models::Post" ["api"] [["api"], ["models"]] = "crate::models::Post" ∧
      ¬FollowsChain postUses "Post"
        [⟨"Post", false, ["m", "Post"]⟩, ⟨"m", false, ["crate", "models"]⟩]) := by
  have hVerbChain : ImportChain verbUses
      [⟨"get", false, ["rest", "get"]⟩, ⟨"rest", false, ["web"]⟩] :=
    importChain_pair (by decide) rfl rfl (by decide) (by decide) rfl (by decide)
  have hPostChain : ImportChain postUses
      [⟨"Post", false, ["m", "Post"]⟩, ⟨"m", false, ["crate", "models"]⟩] :=
    importChain_pair (by decide) rfl rfl (by decide) (by decide) rfl (by decide)
  refine ⟨⟨hVerbChain, by decide +kernel, by decide +kernel, ?_⟩,
    ⟨hPostChain, rfl, by decide +kernel, by decide +kernel, ?_⟩⟩
  · exact fun hFollows => absurd (hFollows.qualify []) (by decide +kernel)
  · exact fun hFollows => absurd (hFollows.qualify []) (by decide +kernel)

end
end TraitClient
