import TraitClient.Extraction.Signature
import TraitClient.Proofs.LegibleMethods
import TraitClient.Proofs.PathText
import TraitClient.Proofs.ServiceHierarchy

/-!
# Names of the source in generated code

The names of a syntax tree are identifiers and path words, as the parser takes them.  A type keeps
them when it is resolved, and when it is anchored in a module whose path is made of such names, so
that the methods of a service are spelled well wherever they come from.

Two kinds of types have no spelling in generated code.  A lifetime cannot be raw there.  A type that
is anchored has to be named by an identifier in the end: an import of a module by a path word, such
as `use crate as root`, can stand only in front of other segments.
-/
namespace TraitClient

open Code (IsName IsSegment IsPath Word takesArguments)

/-! ## Names in syntax trees -/

namespace Source

def isName (name : String) : Bool := (Word.ident name).isToken && isPlainName name

def isSegment (name : String) : Bool :=
  (Word.ident name).isToken && (isPlainName name || Code.pathWords.contains name)

/-- What a type is made of: paths and lifetimes. -/
inductive TypePart
  | path (leadingColon : Bool) (segments : List TypeSegment)
  | lifetime (name : String)

mutual

def TypeExpr.parts : TypeExpr → List TypePart
  | .paren _ inner => inner.parts
  | .unit => []
  | .reference _ lifetime _ target => lifetime.toList.map .lifetime ++ target.parts
  | .slice _ element => element.parts
  | .path _ leadingColon segments => .path leadingColon segments :: TypeSegment.allParts segments
  | .other _ => []

def TypeSegment.allParts : List TypeSegment → List TypePart
  | [] => []
  | s :: rest => s.parts ++ TypeSegment.allParts rest

def TypeSegment.parts : TypeSegment → List TypePart
  | .mk _ arguments => arguments.parts

def TypeArguments.parts : TypeArguments → List TypePart
  | .none => []
  | .angle arguments => TypeArgument.allParts arguments
  | .parenthesized => []

def TypeArgument.allParts : List TypeArgument → List TypePart
  | [] => []
  | a :: rest => a.parts ++ TypeArgument.allParts rest

def TypeArgument.parts : TypeArgument → List TypePart
  | .type t => t.parts
  | .lifetime _ => []
  | .other => []

end

/-- Whether a part has its names as the parser takes them: segments are names or path words, of
which only `Self` takes arguments, and `try` stands at the front only behind a `::`. -/
def TypePart.wellNamed : TypePart → Bool
  | .path leadingColon segments =>
    (leadingColon || segments.head?.map (·.name) != some "try") &&
      segments.all fun s => isSegment s.name && (!hasArguments s || takesArguments s.name)
  | .lifetime name => (Word.ident name).isToken

def TypeExpr.wellNamed (t : TypeExpr) : Bool := t.parts.all (·.wellNamed)

mutual

def UseTree.wellNamed : UseTree → Bool
  | .path segment tree => isSegment segment && tree.wellNamed
  | .name segment => isSegment segment
  | .rename segment _ => isSegment segment
  | .glob => true
  | .group trees => UseTree.allWellNamed trees

def UseTree.allWellNamed : List UseTree → Bool
  | [] => true
  | t :: rest => t.wellNamed && UseTree.allWellNamed rest

end

def FunctionParameter.name? : FunctionParameter → Option String
  | .receiver .. => none
  | .typed _ name _ => name

def FunctionParameter.type? : FunctionParameter → Option TypeExpr
  | .receiver .. => none
  | .typed _ _ type => some type

def TraitFunction.types (f : TraitFunction) : List TypeExpr :=
  f.parameters.filterMap (·.type?) ++ f.output.toList

def TraitFunction.wellNamed (f : TraitFunction) : Bool :=
  isName f.name && (f.parameters.filterMap (·.name?)).all isName && f.types.all (·.wellNamed)

def TraitDeclaration.wellNamed (t : TraitDeclaration) : Bool :=
  isName t.name && t.functions.all (·.wellNamed)

mutual

def Item.wellNamed : Item → Bool
  | .use _ tree => tree.wellNamed
  | .module name none => isSegment name
  | .module name (some items) => isSegment name && Item.allWellNamed items
  | .trait declaration => declaration.wellNamed
  | .other => true

def Item.allWellNamed : List Item → Bool
  | [] => true
  | item :: rest => item.wellNamed && Item.allWellNamed rest

end

theorem UseTree.allWellNamed_iff (trees : List UseTree) :
    allWellNamed trees = true ↔ ∀ tree ∈ trees, tree.wellNamed = true := by
  induction trees with
  | nil => simp [allWellNamed]
  | cons tree trees ih => rw [allWellNamed, Bool.and_eq_true, ih, List.forall_mem_cons]

theorem Item.allWellNamed_iff (items : List Item) :
    allWellNamed items = true ↔ ∀ item ∈ items, item.wellNamed = true := by
  induction items with
  | nil => simp [allWellNamed]
  | cons item items ih => rw [allWellNamed, Bool.and_eq_true, ih, List.forall_mem_cons]

theorem isName_iff {name : String} : isName name = true ↔ IsName name := by
  rw [isName, Bool.and_eq_true]
  exact ⟨fun h => ⟨h.1, h.2⟩, fun h => ⟨h.token, h.plain⟩⟩

theorem isSegment_iff {name : String} : isSegment name = true ↔ IsSegment name := by
  rw [isSegment, Bool.and_eq_true, Bool.or_eq_true, List.contains_iff_mem]
  exact ⟨fun h => ⟨h.1, h.2⟩, fun h => ⟨h.token, h.word⟩⟩

end Source

/-! ## Full names -/

namespace Imports

def Spelled (imports : Imports) : Prop := ∀ entry ∈ imports.bindings, ∀ s ∈ entry.2, IsSegment s

/-- Whether the full name of a written type ends in an identifier. -/
def namesType (imports : Imports) (segments : List String) (leadingColon : Bool) : Bool :=
  (splitPath (imports.qualify segments leadingColon)).getLast?.any fun s =>
    Source.isName s || s == "Self"

theorem qualify_eq_joinPath {imports : Imports} (h : imports.Spelled) {segments : List String}
    (hSegments : ∀ s ∈ segments, IsSegment s) (leadingColon : Bool) :
    ∃ full, (∀ s ∈ full, IsSegment s) ∧ imports.qualify segments leadingColon = joinPath full := by
  have hPrelude : ∀ entry ∈ preludeTypes, (∀ s ∈ splitPath entry.2, Source.isSegment s = true) ∧
      joinPath (splitPath entry.2) = entry.2 := by decide +kernel
  unfold qualify
  split
  · exact ⟨[], by simp, rfl⟩
  · rename_i first others
    split
    · exact ⟨_, hSegments, rfl⟩
    · split
      · rename_i target hTarget
        obtain ⟨entry, hFind, rfl⟩ := Option.map_eq_some_iff.mp hTarget
        have hEntry := h entry (List.mem_of_find?_eq_some hFind)
        have hOthers := (List.forall_mem_cons.mp hSegments).2
        exact ⟨_, List.forall_mem_append.mpr ⟨hEntry, hOthers⟩, rfl⟩
      · split
        · rename_i name path hFind
          obtain ⟨hAll, hJoin⟩ := hPrelude _ (List.mem_of_find?_eq_some hFind)
          exact ⟨_, fun s hs => Source.isSegment_iff.mp (hAll s hs), hJoin.symm⟩
        · exact ⟨_, hSegments, rfl⟩

end Imports

/-- Whether generated code can spell a part of a type, in another module than its own if it is
inherited. -/
def Source.TypePart.hasSpelling (imports : Imports) (inherited : Bool) : Source.TypePart → Bool
  | .path leadingColon segments =>
    !inherited || imports.namesType (segments.map (·.name)) leadingColon
  | .lifetime name => !Naming.isRaw name

/-! ## Resolved types -/

/-- A path with its full name, each made of segments that stand where they can.  The full name takes
the place of the path if the type is inherited. -/
structure NamedPath (inherited : Bool) (t : TypeRef) : Prop where
  full : ∃ full, (∀ s ∈ full, IsSegment s) ∧ t.qualifiedName = joinPath full ∧
    (inherited = true → full ≠ [] ∧ ∀ s ∈ full.getLast?, takesArguments s = true)
  path : IsPath t.path
  arguments : t.arguments ≠ [] →
    ∀ s ∈ (Code.pathSegments t.path).getLast?, takesArguments s = true

/-- A type as resolving leaves it. -/
inductive TypeRef.Spelled (inherited : Bool) : TypeRef → Prop
  | mk {t : TypeRef} (lifetime : ∀ l ∈ t.lifetime, (Word.lifetime l).isToken = true)
      (base : t.path = "()" ∨ (t.qualifiedName = sliceName ∧ t.arguments ≠ []) ∨
        NamedPath inherited t)
      (arguments : ∀ a ∈ t.arguments, a.Spelled inherited) : t.Spelled inherited

variable {inherited : Bool}

theorem TypeRef.Spelled.with_nullable {t : TypeRef} (h : t.Spelled inherited) (nullable : Bool) :
    { t with nullable }.Spelled inherited := by
  cases h with
  | mk hLifetime hBase hArguments =>
    refine .mk hLifetime ?_ hArguments
    rcases hBase with hUnit | hSlice | hPath
    · exact .inl hUnit
    · exact .inr (.inl hSlice)
    · exact .inr (.inr ⟨hPath.full, hPath.path, hPath.arguments⟩)

theorem TypeRef.Spelled.borrowed {t : TypeRef} (h : t.Spelled inherited) {lifetime : Option String}
    (hLifetime : ∀ l ∈ lifetime, (Word.lifetime l).isToken = true) :
    (t.borrowed lifetime).Spelled inherited := by
  cases h with
  | mk _ hBase hArguments =>
    refine .mk hLifetime ?_ hArguments
    rcases hBase with hUnit | hSlice | hPath
    · exact .inl hUnit
    · exact .inr (.inl hSlice)
    · exact .inr (.inr ⟨hPath.full, hPath.path, hPath.arguments⟩)

theorem TypeRef.Spelled.unit : TypeRef.unit.Spelled inherited :=
  .mk (by simp [TypeRef.unit, TypeRef.named]) (.inl rfl) (by simp [TypeRef.unit, TypeRef.named])

theorem joinPath_ne_sliceName {full : List String} (h : ∀ s ∈ full, IsSegment s) :
    joinPath full ≠ TypeRef.sliceName := by
  intro hSlice
  cases full with
  | nil => exact absurd hSlice (by decide)
  | cons first rest =>
    have hSegments := Code.pathSegments_joinPath (List.cons_ne_nil first rest)
      fun s hs => (h s hs).unbroken
    rw [hSlice] at hSegments
    have hFirst : first = "[]" := by
      have hSlices : Code.pathSegments TypeRef.sliceName = ["[]"] := by decide
      rw [hSlices] at hSegments
      exact (List.cons.inj hSegments).1.symm
    have hToken := (h first List.mem_cons_self).token
    rw [hFirst] at hToken
    exact absurd hToken (by decide)

theorem TypeRef.Spelled.legible {t : TypeRef} (h : t.Spelled inherited) : t.Legible := by
  induction h with
  | mk hLifetime hBase _ ih =>
    refine .mk hLifetime ?_ ih
    rcases hBase with hUnit | hSlice | hPath
    · exact .inl hUnit
    · exact .inr (.inl hSlice)
    · obtain ⟨full, hFull, hName, _⟩ := hPath.full
      refine .inr (.inr ⟨?_, hPath.path, hPath.arguments⟩)
      rw [hName]
      exact joinPath_ne_sliceName hFull

/-! ## Anchoring -/

theorem climb_result (base path : List String) :
    ∃ k, (climb base path).1 <+: base ∧ (climb base path).2 = path.drop k ∧
      ∀ s ∈ path.take k, takesArguments s = false := by
  induction path generalizing base with
  | nil => exact ⟨0, List.prefix_rfl, rfl, by simp⟩
  | cons first rest ih =>
    rw [climb]
    split
    · rename_i hSelf
      obtain rfl := eq_of_beq hSelf
      obtain ⟨k, hBase, hRest, hTaken⟩ := ih base
      exact ⟨k + 1, hBase, hRest, List.forall_mem_cons.mpr ⟨by decide, hTaken⟩⟩
    · split
      · rename_i hSuper
        obtain rfl := eq_of_beq hSuper
        obtain ⟨k, hBase, hRest, hTaken⟩ := ih base.dropLast
        exact ⟨k + 1, hBase.trans (List.dropLast_prefix base), hRest,
          List.forall_mem_cons.mpr ⟨by decide, hTaken⟩⟩
      · exact ⟨0, List.prefix_rfl, rfl, by simp⟩

theorem isPath_crateLocal {base rest : List String} (hBase : ∀ s ∈ base, IsSegment s)
    (hRest : ∀ s ∈ rest, IsSegment s) :
    IsPath (crateLocal base rest) ∧
      Code.pathSegments (crateLocal base rest) = "crate" :: base ++ rest := by
  have hCrate : IsSegment "crate" := Source.isSegment_iff.mp (by decide)
  have hAll : ∀ s ∈ "crate" :: base ++ rest, IsSegment s :=
    List.forall_mem_append.mpr ⟨List.forall_mem_cons.mpr ⟨hCrate, hBase⟩, hRest⟩
  have hNonempty : "crate" :: base ++ rest ≠ [] := List.cons_ne_nil _ _
  refine ⟨Code.isPath_joinPath hNonempty hAll ?_, ?_⟩
  · rw [List.cons_append, List.head?_cons]
    decide
  · exact Code.pathSegments_joinPath hNonempty fun s hs => (hAll s hs).unbroken

/-- How a path is anchored, by the first of its segments. -/
inductive Anchoring (path : String) (modulePath : List String) (modules : List (List String)) :
    List String → String → Prop
  | crate {rest : List String} : Anchoring path modulePath modules ("crate" :: rest) path
  | climbs {first : String} {rest : List String} (hWord : first = "self" ∨ first = "super") :
    Anchoring path modulePath modules (first :: rest)
      (crateLocal (climb modulePath (first :: rest)).1 (climb modulePath (first :: rest)).2)
  | builtIn {name : String} (hWord : name ≠ "crate" ∧ name ≠ "self" ∧ name ≠ "super")
      (h : TypeRef.isPrimitiveName name = true) : Anchoring path modulePath modules [name] path
  | lone {name : String} (hWord : name ≠ "crate" ∧ name ≠ "self" ∧ name ≠ "super")
      (h : TypeRef.isPrimitiveName name = false) :
    Anchoring path modulePath modules [name] (crateLocal modulePath [name])
  | child {first second : String} {rest : List String}
      (hWord : first ≠ "crate" ∧ first ≠ "self" ∧ first ≠ "super")
      (h : modulePath ++ [first] ∈ modules) :
    Anchoring path modulePath modules (first :: second :: rest)
      (crateLocal modulePath (first :: second :: rest))
  | foreign {first second : String} {rest : List String}
      (hWord : first ≠ "crate" ∧ first ≠ "self" ∧ first ≠ "super")
      (h : modulePath ++ [first] ∉ modules) :
    Anchoring path modulePath modules (first :: second :: rest) ("::" ++ path)

theorem anchorPath_anchoring (path : String) (modulePath : List String)
    (modules : List (List String)) :
    Anchoring path modulePath modules (splitPath path) (anchorPath path modulePath modules) := by
  obtain ⟨first, rest, hSegments⟩ := List.exists_cons_of_ne_nil (splitPath_ne_nil path)
  unfold anchorPath
  rw [hSegments]
  dsimp only
  split
  · rename_i hCrate
    obtain rfl := eq_of_beq hCrate
    exact .crate
  rename_i hCrate
  split
  · rename_i hMoves
    exact .climbs (by simpa using hMoves)
  rename_i hMoves
  have hWord : first ≠ "crate" ∧ first ≠ "self" ∧ first ≠ "super" :=
    ⟨by simpa using hCrate, by simpa using hMoves⟩
  cases rest with
  | nil =>
    rw [List.isEmpty_nil, if_pos rfl]
    split
    · rename_i hBuiltIn
      exact .builtIn hWord hBuiltIn
    · rename_i hBuiltIn
      exact .lone hWord (by simpa using hBuiltIn)
  | cons second rest =>
    rw [List.isEmpty_cons, if_neg Bool.false_ne_true]
    split
    · rename_i hChild
      exact .child hWord (List.contains_iff_mem.mp hChild)
    · rename_i hChild
      exact .foreign hWord (mt List.contains_iff_mem.mpr hChild)

theorem anchorPath_joinPath {full : List String} (hNonempty : full ≠ [])
    (hFull : ∀ s ∈ full, Unbroken s) (modulePath : List String) (modules : List (List String)) :
    Anchoring (joinPath full) modulePath modules full
      (anchorPath (joinPath full) modulePath modules) := by
  have hAnchoring := anchorPath_anchoring (joinPath full) modulePath modules
  rwa [splitPath_joinPath hNonempty hFull] at hAnchoring

/-- Climbing stops before a last segment that takes arguments. -/
theorem climb_getLast? (base : List String) {path : List String} (hNonempty : path ≠ [])
    (hLast : ∀ s ∈ path.getLast?, takesArguments s = true) :
    (climb base path).2 ≠ [] ∧ (climb base path).2.getLast? = path.getLast? := by
  obtain ⟨k, _, hRest, hTaken⟩ := climb_result base path
  rw [hRest]
  have hLeft : path.drop k ≠ [] := by
    intro hNil
    rw [List.take_of_length_le (List.drop_eq_nil_iff.mp hNil)] at hTaken
    have hNo := hTaken _ (List.getLast_mem hNonempty)
    rw [hLast _ (List.getLast?_eq_some_getLast hNonempty)] at hNo
    cases hNo
  refine ⟨hLeft, ?_⟩
  conv_rhs => rw [← List.take_append_drop k path]
  exact (List.getLast?_append_of_ne_nil _ hLeft).symm

theorem climb_segments {base path : List String} (hBase : ∀ s ∈ base, IsSegment s)
    (hPath : ∀ s ∈ path, IsSegment s) :
    (∀ s ∈ (climb base path).1, IsSegment s) ∧ ∀ s ∈ (climb base path).2, IsSegment s := by
  obtain ⟨k, hBelow, hRest, _⟩ := climb_result base path
  rw [hRest]
  exact ⟨fun s hs => hBase s (hBelow.subset hs), fun s hs => hPath s (List.mem_of_mem_drop hs)⟩

theorem isPath_anchorPath {full modulePath : List String} {modules : List (List String)}
    (hNonempty : full ≠ []) (hFull : ∀ s ∈ full, IsSegment s)
    (hLast : ∀ s ∈ full.getLast?, takesArguments s = true)
    (hModule : ∀ s ∈ modulePath, IsSegment s) :
    IsPath (anchorPath (joinPath full) modulePath modules) ∧
      ∀ s ∈ (Code.pathSegments (anchorPath (joinPath full) modulePath modules)).getLast?,
        takesArguments s = true := by
  have hUnbroken : ∀ s ∈ full, Unbroken s := fun s hs => (hFull s hs).unbroken
  -- A path that is left as it is starts with no word that only a global path can start with.
  have hSame (hHead : full.head? ≠ some "try") : IsPath (joinPath full) ∧
      ∀ s ∈ (Code.pathSegments (joinPath full)).getLast?, takesArguments s = true := by
    rw [Code.pathSegments_joinPath hNonempty hUnbroken]
    exact ⟨Code.isPath_joinPath hNonempty hFull hHead, hLast⟩
  have hLocal {base rest : List String} (hBase : ∀ s ∈ base, IsSegment s)
      (hRest : ∀ s ∈ rest, IsSegment s) (hEnd : rest ≠ [])
      (hEndLast : rest.getLast? = full.getLast?) :
      IsPath (crateLocal base rest) ∧
        ∀ s ∈ (Code.pathSegments (crateLocal base rest)).getLast?, takesArguments s = true := by
    obtain ⟨hPath, hSegments⟩ := isPath_crateLocal hBase hRest
    rw [hSegments, List.getLast?_append_of_ne_nil _ hEnd, hEndLast]
    exact ⟨hPath, hLast⟩
  have hAnchoring := anchorPath_joinPath hNonempty hUnbroken modulePath modules
  generalize anchorPath (joinPath full) modulePath modules = anchored at hAnchoring ⊢
  cases hAnchoring with
  | crate => exact hSame (by simp)
  | climbs =>
    obtain ⟨hEnd, hEndLast⟩ := climb_getLast? modulePath hNonempty hLast
    obtain ⟨hBase, hRest⟩ := climb_segments hModule hFull
    exact hLocal hBase hRest hEnd hEndLast
  | builtIn _ hPrimitive =>
    refine hSame ?_
    rintro hTry
    obtain rfl := Option.some.inj hTry
    exact absurd hPrimitive (by decide)
  | lone | child => exact hLocal hModule hFull hNonempty rfl
  | foreign =>
    rw [Code.pathSegments_global hNonempty hUnbroken]
    exact ⟨Code.isPath_global hNonempty hFull, hLast⟩

theorem anchoredAll_eq (modulePath : List String) (modules : List (List String))
    (ts : List TypeRef) :
    TypeRef.anchoredAll modulePath modules ts = ts.map (·.anchored modulePath modules) := by
  induction ts with
  | nil => rfl
  | cons t ts ih => rw [TypeRef.anchoredAll, ih, List.map_cons]

theorem TypeRef.Spelled.anchored {t : TypeRef} (h : t.Spelled true) {modulePath : List String}
    {modules : List (List String)} (hModule : ∀ s ∈ modulePath, IsSegment s) :
    (t.anchored modulePath modules).Legible := by
  induction h with
  | @mk t hLifetime hBase _ ih =>
    obtain ⟨qualifiedName, path, arguments, nullable, byRef, lifetime⟩ := t
    rw [TypeRef.anchored, anchoredAll_eq]
    refine .mk hLifetime ?_ (by simpa using ih)
    rcases hBase with hUnit | ⟨hSlice, hElement⟩ | hPath
    · obtain rfl : path = "()" := hUnit
      exact .inl (by simp)
    · obtain rfl : qualifiedName = sliceName := hSlice
      exact .inr (.inl ⟨rfl, by simpa using hElement⟩)
    · obtain ⟨full, hFull, hName, hEnds⟩ := hPath.full
      obtain ⟨hNonempty, hLast⟩ := hEnds rfl
      obtain rfl : qualifiedName = joinPath full := hName
      refine .inr (.inr ⟨joinPath_ne_sliceName hFull, ?_⟩)
      dsimp only
      split
      · exact ⟨hPath.path, fun hArguments => hPath.arguments (by simpa using hArguments)⟩
      · obtain ⟨hAnchored, hEnd⟩ := isPath_anchorPath hNonempty hFull hLast hModule
        exact ⟨hAnchored, fun _ => hEnd⟩

/-! ## Resolving -/

namespace Imports

theorem namedPath_pathType {imports : Imports} (h : imports.Spelled) {leadingColon : Bool}
    {segments : List String} (hSegments : ∀ s ∈ segments, IsSegment s) (hNonempty : segments ≠ [])
    (hHead : leadingColon = true ∨ segments.head? ≠ some "try")
    (hNames : inherited = true → imports.namesType segments leadingColon = true)
    {arguments : List TypeRef}
    (hLast : arguments ≠ [] → ∀ s ∈ segments.getLast?, takesArguments s = true) :
    NamedPath inherited { TypeRef.named (imports.qualify segments leadingColon)
      ((if leadingColon then "::" else "") ++ joinPath segments) with arguments } := by
  obtain ⟨full, hFull, hQualified⟩ := qualify_eq_joinPath h hSegments leadingColon
  have hUnbroken : ∀ s ∈ segments, Unbroken s := fun s hs => (hSegments s hs).unbroken
  refine ⟨⟨full, hFull, hQualified, fun hInherited => ?_⟩, ?_, fun hArguments => ?_⟩
  · have hNames := hNames hInherited
    rw [namesType, hQualified] at hNames
    have hFullNonempty : full ≠ [] := by
      rintro rfl
      exact absurd hNames (by decide)
    rw [splitPath_joinPath hFullNonempty fun s hs => (hFull s hs).unbroken] at hNames
    refine ⟨hFullNonempty, fun s hs => ?_⟩
    rw [Option.mem_def.mp hs, Option.any_some] at hNames
    rcases Bool.or_eq_true_iff.mp hNames with hName | hSelf
    · simp [takesArguments, (Source.isName_iff.mp hName).plain]
    · simp [takesArguments, hSelf]
  · cases leadingColon with
    | true => exact Code.isPath_global hNonempty hSegments
    | false =>
      have hPath := Code.isPath_joinPath hNonempty hSegments (hHead.resolve_left (by simp))
      simpa [TypeRef.named] using hPath
  · have hPathSegments : Code.pathSegments ((if leadingColon then "::" else "") ++
        joinPath segments) = segments := by
      cases leadingColon with
      | true => exact Code.pathSegments_global hNonempty hUnbroken
      | false => simpa using Code.pathSegments_joinPath hNonempty hUnbroken
    simpa only [TypeRef.named, hPathSegments] using hLast hArguments

/-- A type as resolving makes it, of parts that all have some property. -/
inductive Made (imports : Imports) (Good : Source.TypePart → Prop) : TypeRef → Prop
  | unit : Made imports Good .unit
  | slice {element : TypeRef} {lifetime : Option String}
      (hLifetime : ∀ l ∈ lifetime, Good (.lifetime l)) (h : Made imports Good element) :
    Made imports Good ((TypeRef.slice element).borrowed lifetime)
  | reference {inner : TypeRef} {lifetime : Option String}
      (hLifetime : ∀ l ∈ lifetime, Good (.lifetime l)) (h : Made imports Good inner)
      (plain : (inner.byRef || inner.nullable) = false) : Made imports Good (inner.borrowed lifetime)
  | option {inner : TypeRef} (h : Made imports Good inner) (present : inner.nullable = false) :
    Made imports Good { inner with nullable := true }
  | path {leadingColon : Bool} {segments : List Source.TypeSegment} {arguments : List TypeRef}
      (good : Good (.path leadingColon segments)) (nonempty : segments ≠ [])
      (last : arguments ≠ [] → ∀ s ∈ segments.getLast?, hasArguments s = true)
      (noOption : isOptionName (imports.qualify (segments.map (·.name)) leadingColon) = true →
        arguments.length ≠ 1)
      (h : ∀ a ∈ arguments, Made imports Good a) :
    Made imports Good { TypeRef.named (imports.qualify (segments.map (·.name)) leadingColon)
      ((if leadingColon then "::" else "") ++ joinPath (segments.map (·.name))) with arguments }

variable {imports : Imports} {Good : Source.TypePart → Prop}

theorem made_pathType {tokens : Source.Tokens} {leadingColon : Bool}
    {segments : List Source.TypeSegment}
    (hGood : Good (.path leadingColon segments)) (hNonempty : segments ≠ [])
    {arguments : List TypeRef} (hArguments : ∀ a ∈ arguments, Made imports Good a)
    (hLast : arguments ≠ [] → ∀ s ∈ segments.getLast?, hasArguments s = true) {r : TypeRef}
    (hr : imports.pathType tokens leadingColon (segments.map (·.name)) arguments = .ok r) :
    Made imports Good r := by
  have hNamed := @Made.path imports Good leadingColon segments arguments hGood hNonempty hLast
  unfold pathType at hr
  dsimp only at hr
  generalize (if leadingColon then "::" else "") ++ joinPath (segments.map (·.name)) = written
    at hr hNamed
  split at hr
  · rename_i inner hOption
    split at hr
    · cases hr
    · rename_i hPresent
      cases hr
      exact .option (hArguments inner List.mem_cons_self) (by simpa using hPresent)
  · rename_i hNoOption
    cases hr
    refine hNamed (fun hOption hLength => ?_) hArguments
    obtain ⟨inner, rfl⟩ := List.length_eq_one_iff.mp hLength
    exact hNoOption inner hOption rfl

theorem isToken_lifetime {name : String} (hToken : (Word.ident name).isToken = true)
    (hRaw : Naming.isRaw name = false) : (Word.lifetime name).isToken = true := by
  rwa [Code.Word.isToken, ← Code.isToken_of_not_raw hRaw]

theorem resolve_reference {imports : Imports} {tokens : Source.Tokens} {lifetime : Option String}
    {isMut : Bool} {target : Source.TypeExpr}
    (h : ∀ tokens element, target ≠ .slice tokens element) :
    imports.resolve (.reference tokens lifetime isMut target) =
      if isMut then .error (.mutableReference tokens)
      else imports.resolve target >>= fun inner =>
        if inner.byRef || inner.nullable then .error (.nestedReference tokens)
        else .ok (inner.borrowed lifetime) := by
  cases target with
  | slice tokens element => exact absurd rfl (h tokens element)
  | _ => rfl

mutual

theorem resolve_made (t : Source.TypeExpr) {r : TypeRef} (ht : ∀ part ∈ t.parts, Good part)
    (hr : imports.resolve t = .ok r) : Made imports Good r := by
  match t with
  | .paren _ inner =>
    rw [resolve] at hr
    exact resolve_made inner ht hr
  | .unit =>
    cases hr
    exact .unit
  | .reference tokens lifetime isMut target =>
    rw [Source.TypeExpr.parts] at ht
    obtain ⟨hNames, hTarget⟩ := List.forall_mem_append.mp ht
    have hLifetime : ∀ l ∈ lifetime, Good (.lifetime l) := fun l hl => hNames _ (by simpa using hl)
    by_cases hSlice : ∃ tokens element, target = .slice tokens element
    · obtain ⟨_, element, rfl⟩ := hSlice
      rw [resolve] at hr
      split at hr
      · cases hr
      · obtain ⟨inner, hElement, hr⟩ := bind_eq_ok hr
        cases hr
        exact .slice hLifetime (resolve_made element hTarget hElement)
    · rw [resolve_reference fun tokens element hEq => hSlice ⟨tokens, element, hEq⟩] at hr
      split at hr
      · cases hr
      · obtain ⟨inner, hInner, hr⟩ := bind_eq_ok hr
        split at hr
        · cases hr
        · rename_i hPlain
          cases hr
          exact .reference hLifetime (resolve_made target hTarget hInner) (by simpa using hPlain)
  | .slice _ _ => cases hr
  | .path tokens leadingColon segments =>
    rw [Source.TypeExpr.parts] at ht
    obtain ⟨hGood, hRest⟩ := List.forall_mem_cons.mp ht
    rw [resolve] at hr
    split at hr
    · cases hr
    · obtain ⟨arguments, hArguments, hr⟩ := bind_eq_ok hr
      obtain ⟨hNonempty, hMade, hLast⟩ := resolveLast_made segments hRest hArguments
      exact made_pathType hGood hNonempty hMade hLast hr
  | .other _ => cases hr

theorem resolveLast_made {tokens : Source.Tokens} (segments : List Source.TypeSegment)
    {arguments : List TypeRef}
    (ht : ∀ part ∈ Source.TypeSegment.allParts segments, Good part)
    (hr : imports.resolveLast tokens segments = .ok arguments) :
    segments ≠ [] ∧ (∀ a ∈ arguments, Made imports Good a) ∧
      (arguments ≠ [] → ∀ s ∈ segments.getLast?, hasArguments s = true) := by
  match segments with
  | [] => cases hr
  | [.mk name arguments'] =>
    rw [Source.TypeSegment.allParts, Source.TypeSegment.parts] at ht
    obtain ⟨ht, _⟩ := List.forall_mem_append.mp ht
    obtain ⟨hMade, hSome⟩ := resolveArguments_made arguments' ht hr
    refine ⟨List.cons_ne_nil _ _, hMade, fun hNonempty s hs => ?_⟩
    obtain rfl := Option.some.inj hs
    have hArguments := hSome hNonempty
    cases arguments' with
    | none => exact absurd rfl hArguments
    | angle | parenthesized => rfl
  | _ :: s :: rest =>
    rw [Source.TypeSegment.allParts] at ht
    obtain ⟨_, ht⟩ := List.forall_mem_append.mp ht
    obtain ⟨_, hMade, hLast⟩ := resolveLast_made (s :: rest) ht hr
    exact ⟨List.cons_ne_nil _ _, hMade, by simpa using hLast⟩

theorem resolveArguments_made {tokens : Source.Tokens} (arguments : Source.TypeArguments)
    {resolved : List TypeRef}
    (ht : ∀ part ∈ arguments.parts, Good part)
    (hr : imports.resolveArguments tokens arguments = .ok resolved) :
    (∀ a ∈ resolved, Made imports Good a) ∧ (resolved ≠ [] → arguments ≠ .none) := by
  match arguments with
  | .none =>
    cases hr
    exact ⟨by simp, fun hNonempty => absurd rfl hNonempty⟩
  | .angle arguments => exact ⟨resolveEach_made arguments ht hr, fun _ => by simp⟩
  | .parenthesized => cases hr

theorem resolveEach_made {tokens : Source.Tokens} (arguments : List Source.TypeArgument)
    {resolved : List TypeRef}
    (ht : ∀ part ∈ Source.TypeArgument.allParts arguments, Good part)
    (hr : imports.resolveEach tokens arguments = .ok resolved) :
    ∀ a ∈ resolved, Made imports Good a := by
  match arguments with
  | [] =>
    cases hr
    simp
  | .type t :: rest =>
    rw [Source.TypeArgument.allParts, Source.TypeArgument.parts] at ht
    obtain ⟨hFirst, hRest⟩ := List.forall_mem_append.mp ht
    rw [resolveEach] at hr
    obtain ⟨first, hType, hr⟩ := bind_eq_ok hr
    obtain ⟨others, hOthers, hr⟩ := bind_eq_ok hr
    cases hr
    exact List.forall_mem_cons.mpr
      ⟨resolve_made t hFirst hType, resolveEach_made rest hRest hOthers⟩
  | .lifetime _ :: _ => cases hr
  | .other :: _ => cases hr

end

/-- Whether a part has its names as the parser takes them, and a spelling in generated code. -/
def SpellsPart (imports : Imports) (inherited : Bool) (part : Source.TypePart) : Prop :=
  part.wellNamed = true ∧ part.hasSpelling imports inherited = true

theorem SpellsPart.lifetime {name : String} (h : SpellsPart imports inherited (.lifetime name)) :
    (Word.lifetime name).isToken = true := by
  obtain ⟨hToken, hSpelling⟩ := h
  exact isToken_lifetime hToken (by simpa [Source.TypePart.hasSpelling] using hSpelling)

theorem SpellsPart.path {leadingColon : Bool} {segments : List Source.TypeSegment}
    (hPart : SpellsPart imports inherited (.path leadingColon segments)) (h : imports.Spelled)
    (hNonempty : segments ≠ []) {arguments : List TypeRef}
    (hLast : arguments ≠ [] → ∀ s ∈ segments.getLast?, hasArguments s = true) :
    NamedPath inherited { TypeRef.named (imports.qualify (segments.map (·.name)) leadingColon)
      ((if leadingColon then "::" else "") ++ joinPath (segments.map (·.name))) with arguments } := by
  obtain ⟨hWellNamed, hSpelling⟩ := hPart
  obtain ⟨hHead, hEach⟩ := Bool.and_eq_true_iff.mp hWellNamed
  have hEach := List.all_eq_true.mp hEach
  simp only [Bool.and_eq_true] at hEach
  have hSegments : ∀ s ∈ segments.map (·.name), IsSegment s := by
    rintro name hName
    obtain ⟨s, hs, rfl⟩ := List.mem_map.mp hName
    exact Source.isSegment_iff.mp (hEach s hs).1
  have hFirst : leadingColon = true ∨ (segments.map (·.name)).head? ≠ some "try" := by
    simpa [List.head?_map] using hHead
  refine namedPath_pathType h hSegments (by simpa using hNonempty) hFirst ?_ fun hSome name hName => ?_
  · rintro rfl
    simpa [Source.TypePart.hasSpelling] using hSpelling
  · rw [List.getLast?_map] at hName
    obtain ⟨s, hs, rfl⟩ := Option.map_eq_some_iff.mp hName
    simpa [hLast hSome s hs] using (hEach s (List.mem_of_getLast? hs)).2

theorem Made.spelled {r : TypeRef} (hMade : Made imports (SpellsPart imports inherited) r)
    (h : imports.Spelled) : r.Spelled inherited := by
  induction hMade with
  | unit => exact .unit
  | @slice element lifetime hLifetime _ ih =>
    have hSliced : (TypeRef.slice element).Spelled inherited :=
      .mk (by simp [TypeRef.slice, TypeRef.named])
        (.inr (.inl ⟨rfl, by simp [TypeRef.slice]⟩)) (by simpa [TypeRef.slice] using ih)
    exact hSliced.borrowed fun l hl => (hLifetime l hl).lifetime
  | reference hLifetime _ _ ih => exact ih.borrowed fun l hl => (hLifetime l hl).lifetime
  | option _ _ ih => exact ih.with_nullable true
  | path hGood hNonempty hLast _ _ ih =>
    exact .mk (by simp [TypeRef.named]) (.inr (.inr (hGood.path h hNonempty hLast))) ih

theorem resolve_spelled (h : imports.Spelled) (t : Source.TypeExpr) {r : TypeRef}
    (ht : ∀ part ∈ t.parts, SpellsPart imports inherited part)
    (hr : imports.resolve t = .ok r) : r.Spelled inherited := (resolve_made t ht hr).spelled h

end Imports

/-! ## Methods -/

namespace Extraction

/-- A method as it is extracted, before any type of it is anchored. -/
structure FromSource (inherited : Bool) (m : Method) : Prop where
  name : IsName m.name
  parameters : ∀ p ∈ m.parameters, IsName p.name
  types : ∀ p ∈ m.parameters, p.type.Spelled inherited
  returnType : m.returnType.Spelled inherited

theorem FromSource.spelled {m : Method} (h : FromSource inherited m) : m.Spelled :=
  ⟨h.name, h.parameters, fun p hp => (h.types p hp).legible, h.returnType.legible⟩

theorem FromSource.anchored {m : Method} (h : FromSource true m) {modulePath : List String}
    {modules : List (List String)} (hModule : ∀ s ∈ modulePath, IsSegment s) :
    (m.anchored modulePath modules).Spelled := by
  refine ⟨h.name, ?_, ?_, h.returnType.anchored hModule⟩
  · simpa [Method.anchored] using h.parameters
  · intro p hp
    obtain ⟨q, hq, rfl⟩ := List.mem_map.mp hp
    exact (h.types q hq).anchored hModule

/-- Whether generated code can spell a type that is written where the imports are. -/
def HasSpelling (imports : Imports) (inherited : Bool) (t : Source.TypeExpr) : Prop :=
  ∀ part ∈ t.parts, part.hasSpelling imports inherited = true

variable {table : AnnotationTable} {imports : Imports}

theorem resolve_fromSource (h : imports.Spelled) {t : Source.TypeExpr} (hNames : t.wellNamed = true)
    (hSpelling : HasSpelling imports inherited t) {r : TypeRef} (hr : imports.resolve t = .ok r) :
    r.Spelled inherited :=
  Imports.resolve_spelled h t
    (fun part hPart => ⟨List.all_eq_true.mp hNames part hPart, hSpelling part hPart⟩) hr

theorem parameterOf_eq_ok {attributes : List Source.Attribute} {name : Option String}
    {type : Source.TypeExpr} {p : Parameter}
    (h : parameterOf table imports attributes name type = .ok p) :
    name = some p.name ∧ imports.resolve type = .ok p.type := by
  unfold parameterOf at h
  split at h
  · cases h
  · split at h
    · cases h
    · rename_i hResolved
      split at h
      · cases h
      · cases h
        exact ⟨rfl, hResolved⟩

theorem parametersOf_declared {ps : List Source.FunctionParameter} {parameters : List Parameter}
    (h : parametersOf table imports ps = .ok parameters) :
    ∀ p ∈ parameters, ∃ q ∈ ps, p.name ∈ q.name? ∧ ∃ t ∈ q.type?, imports.resolve t = .ok p.type := by
  induction ps generalizing parameters with
  | nil =>
    cases h
    simp
  | cons q ps ih =>
    have hLater {more : List Parameter} (hMore : parametersOf table imports ps = .ok more) :
        ∀ p ∈ more, ∃ r ∈ q :: ps, p.name ∈ r.name? ∧
          ∃ t ∈ r.type?, imports.resolve t = .ok p.type := by
      intro p hp
      obtain ⟨r, hr, hDeclared⟩ := ih hMore p hp
      exact ⟨r, List.mem_cons_of_mem _ hr, hDeclared⟩
    cases q with
    | receiver => exact hLater h
    | typed attributes name type =>
      rw [parametersOf] at h
      obtain ⟨first, hFirst, h⟩ := bind_eq_ok h
      obtain ⟨more, hMore, h⟩ := bind_eq_ok h
      cases h
      obtain ⟨hName, hResolved⟩ := parameterOf_eq_ok hFirst
      exact List.forall_mem_cons.mpr
        ⟨⟨_, List.mem_cons_self, hName, type, rfl, hResolved⟩, hLater hMore⟩

theorem parametersOf_fromSource (h : imports.Spelled) {ps : List Source.FunctionParameter}
    (hNames : ∀ p ∈ ps, ∀ n ∈ p.name?, IsName n)
    (hTypes : ∀ p ∈ ps, ∀ t ∈ p.type?, t.wellNamed = true ∧ HasSpelling imports inherited t)
    {parameters : List Parameter} (hps : parametersOf table imports ps = .ok parameters) :
    ∀ p ∈ parameters, IsName p.name ∧ p.type.Spelled inherited := by
  intro p hp
  obtain ⟨q, hq, hName, t, ht, hResolved⟩ := parametersOf_declared hps p hp
  obtain ⟨hWellNamed, hSpelling⟩ := hTypes q hq t ht
  exact ⟨hNames q hq p.name hName, resolve_fromSource h hWellNamed hSpelling hResolved⟩

theorem methodOf?_fromSource (h : imports.Spelled) {declaredIn : String} {f : Source.TraitFunction}
    (hNames : f.wellNamed = true) (hTypes : ∀ t ∈ f.types, HasSpelling imports inherited t)
    {m : Method} (hm : methodOf? table imports declaredIn f = .ok (some m)) :
    FromSource inherited m := by
  rw [Source.TraitFunction.wellNamed, Bool.and_eq_true, Bool.and_eq_true] at hNames
  obtain ⟨⟨hName, hParameterNames⟩, hWellNamed⟩ := hNames
  have hParameterNames := List.all_eq_true.mp hParameterNames
  have hEach (t : Source.TypeExpr) (ht : t ∈ f.types) :
      t.wellNamed = true ∧ HasSpelling imports inherited t :=
    ⟨List.all_eq_true.mp hWellNamed t ht, hTypes t ht⟩
  obtain ⟨hSame, hParameters, hReturn⟩ := methodOf?_some hm
  have hAll := parametersOf_fromSource h
    (fun p hp n hn =>
      Source.isName_iff.mp (hParameterNames n (List.mem_filterMap.mpr ⟨p, hp, hn⟩)))
    (fun p hp t ht =>
      hEach t (List.mem_append_left _ (List.mem_filterMap.mpr ⟨p, hp, ht⟩))) hParameters
  refine ⟨?_, fun p hp => (hAll p hp).1, fun p hp => (hAll p hp).2, ?_⟩
  · rw [hSame]
    exact Source.isName_iff.mp hName
  · rcases hReturn with hUnit | ⟨t, ht, hResolved⟩
    · rw [hUnit]
      exact .unit
    · obtain ⟨hNames, hSpelling⟩ := hEach t (List.mem_append_right _ (by simpa using ht))
      exact resolve_fromSource h hNames hSpelling hResolved

end Extraction
end TraitClient
