import TraitClient.Proofs.InheritedVerdict
import TraitClient.Proofs.SpelledTypes

/-!
# Names in scopes

A path in a type stands for an item of the crate, for one of another crate, or for something built
in.  The path that takes its place elsewhere stands for the same item, unless it is left as it is
and the other scope knows it as something else, or the anchoring takes it for something else: a path
of another crate that looks like one of the crate, or a path from `Self`.
-/
namespace TraitClient

open Code (IsSegment pathSegments isGlobalPath takesArguments)

/-! ## Names in scopes -/

/-- What the path of a type stands for. -/
inductive NamedItem
  | inCrate (path : List String)
  | outside (path : List String)
  | builtIn (name : String)
  | ofSelf (rest : List String)
  deriving DecidableEq

/-- The full name of an item that is not in the crate. -/
def NamedItem.fullName? : NamedItem → Option String
  | .inCrate _ => none
  | .outside path => some (joinPath path)
  | .builtIn name => some name
  | .ofSelf rest => some (joinPath ("Self" :: rest))

/-- A module with its imports, among the modules of its crate.  The word `crate` stands for the
crate whatever is imported. -/
structure Scope where
  items : List Source.Item
  modulePath : List String
  modules : List (List String)
  crateWord : ∀ source ∈ Imports.source? items "crate", source = ⟨"crate", false, ["crate"]⟩

namespace Scope

def fullPath (s : Scope) (leadingColon : Bool) : List String → List String
  | [] => []
  | first :: rest =>
    if leadingColon then first :: rest
    else match Imports.source? s.items first with
      | some source => source.target ++ rest
      | none =>
        match rest, (preludeTypes.find? fun entry => entry.1 == first) with
        | [], some (_, path) => splitPath path
        | _, _ => first :: rest

/-- Whether a path starts at another crate whatever modules there are: with `::`, with a name that is
imported so, or with a name of the prelude. -/
def startsOutside (s : Scope) (leadingColon : Bool) : List String → Bool
  | [] => false
  | first :: rest =>
    leadingColon || match Imports.source? s.items first with
      | some source => source.isGlobal
      | none => rest.isEmpty && preludeTypes.any fun entry => entry.1 == first

/-- The item at a full path that is read from the module on. -/
def place (s : Scope) : List String → NamedItem
  | [] => .inCrate s.modulePath
  | first :: rest =>
    if first == "crate" then .inCrate rest
    else if first == "self" || first == "super" then
      let (base, rest) := climb s.modulePath (first :: rest)
      .inCrate (base ++ rest)
    else if rest.isEmpty || s.modules.contains (s.modulePath ++ [first]) then
      .inCrate (s.modulePath ++ first :: rest)
    else .outside (first :: rest)

/-- The same where built-in names and `Self` are known. -/
def locate (s : Scope) : List String → NamedItem
  | [] => s.place []
  | first :: rest =>
    if first == "Self" then .ofSelf rest
    else if rest.isEmpty && TypeRef.isPrimitiveName first then .builtIn first
    else s.place (first :: rest)

/-- The item that a path stands for in a scope. -/
def item (s : Scope) (leadingColon : Bool) (segments : List String) : NamedItem :=
  if s.startsOutside leadingColon segments then .outside (s.fullPath leadingColon segments)
  else s.locate (s.fullPath leadingColon segments)

/-- The item that a type names in a scope; none for `()` and slices. -/
def meaning? (s : Scope) (t : TypeRef) : Option NamedItem :=
  if t.path == "()" || t.isSlice then none
  else some (s.item (isGlobalPath t.path) (pathSegments t.path))

def imports (s : Scope) : Imports := .ofItems s.items

end Scope

/-! ## Full names -/

namespace Scope

variable {s : Scope} {leadingColon : Bool} {segments : List String}

theorem qualify_eq (s : Scope) (leadingColon : Bool) (segments : List String) :
    s.imports.qualify segments leadingColon = joinPath (s.fullPath leadingColon segments) := by
  cases segments with
  | nil => rfl
  | cons first rest =>
    unfold Imports.qualify fullPath
    dsimp only
    rw [imports, Imports.target?_ofItems]
    cases leadingColon with
    | true => rfl
    | false =>
      cases Imports.source? s.items first with
      | some source => rfl
      | none =>
        cases rest with
        | cons second rest => rfl
        | nil =>
          cases preludeTypes.find? fun entry => entry.1 == first with
          | none => rfl
          | some entry => exact (joinPath_splitPath _).symm

theorem fullName?_place {full : List String} {name : String}
    (h : (s.place full).fullName? = some name) : joinPath full = name := by
  unfold place at h
  split at h
  · cases h
  · split at h
    · cases h
    · split at h
      · cases h
      · split at h
        · cases h
        · exact Option.some.inj h

theorem fullName?_locate {full : List String} {name : String}
    (h : (s.locate full).fullName? = some name) : joinPath full = name := by
  unfold locate at h
  split at h
  · exact fullName?_place h
  · split at h
    · rename_i hSelf
      obtain rfl := eq_of_beq hSelf
      exact Option.some.inj h
    · split at h
      · rename_i hBuiltIn
        obtain ⟨hLone, _⟩ := Bool.and_eq_true_iff.mp hBuiltIn
        obtain rfl := List.isEmpty_iff.mp hLone
        rw [joinPath_singleton]
        exact Option.some.inj h
      · exact fullName?_place h

theorem fullName?_item {name : String}
    (h : (s.item leadingColon segments).fullName? = some name) :
    s.imports.qualify segments leadingColon = name := by
  rw [qualify_eq]
  unfold item at h
  split at h
  · exact Option.some.inj h
  · exact fullName?_locate h

/-! ## Anchored paths -/

theorem fullPath_crate (s : Scope) (rest : List String) :
    s.startsOutside false ("crate" :: rest) = false ∧
      s.fullPath false ("crate" :: rest) = "crate" :: rest := by
  have hPrelude : (preludeTypes.find? fun entry => entry.1 == "crate") = none := by decide
  have hNoName : (preludeTypes.any fun entry => entry.1 == "crate") = false := by decide
  unfold startsOutside fullPath
  cases hSource : Imports.source? s.items "crate" with
  | none => simp [hSource, hPrelude, hNoName]
  | some source =>
    obtain rfl := s.crateWord source hSource
    simp [hSource]

theorem item_crate (s : Scope) (rest : List String) :
    s.item false ("crate" :: rest) = .inCrate rest := by
  obtain ⟨hInside, hFull⟩ := s.fullPath_crate rest
  have hBuiltIn : TypeRef.isPrimitiveName "crate" = false := by decide
  rw [item, hInside, hFull, if_neg Bool.false_ne_true]
  simp [locate, place, hBuiltIn]

/-- An anchored path starts at the crate or outside of it, as the item at its place does. -/
theorem anchorPath_cases (s : Scope) {full : List String} (hNonempty : full ≠ [])
    (hFull : ∀ x ∈ full, IsSegment x) (hModule : ∀ x ∈ s.modulePath, IsSegment x)
    (hBuiltIn : TypeRef.isPrimitiveName (joinPath full) = false) :
    (∃ path, (∀ x ∈ path, IsSegment x) ∧ s.place full = .inCrate path ∧
      anchorPath (joinPath full) s.modulePath s.modules = writtenPath false ("crate" :: path)) ∨
    (s.place full = .outside full ∧
      anchorPath (joinPath full) s.modulePath s.modules = writtenPath true full) := by
  have hLocal (path : List String) : joinPath ("crate" :: path) = writtenPath false ("crate" :: path) := by
    rw [writtenPath, if_neg Bool.false_ne_true, String.empty_append]
  have hAnchoring := anchorPath_joinPath hNonempty (fun x hx => (hFull x hx).unbroken)
    s.modulePath s.modules
  generalize anchorPath (joinPath full) s.modulePath s.modules = anchored at hAnchoring ⊢
  have hBelow := List.forall_mem_append.mpr ⟨hModule, hFull⟩
  cases hAnchoring with
  | @crate rest => exact .inl ⟨rest, (List.forall_mem_cons.mp hFull).2, rfl, hLocal rest⟩
  | @climbs first rest hWord =>
    obtain ⟨hBase, hRest⟩ := climb_segments hModule hFull
    refine .inl ⟨_, List.forall_mem_append.mpr ⟨hBase, hRest⟩, ?_, hLocal _⟩
    rcases hWord with rfl | rfl <;> rfl
  | builtIn _ hName =>
    rw [joinPath_singleton, hName] at hBuiltIn
    cases hBuiltIn
  | lone hWord => exact .inl ⟨_, hBelow, by simp [place, hWord], hLocal _⟩
  | child hWord hChild => exact .inl ⟨_, hBelow, by simp [place, hWord, hChild], hLocal _⟩
  | foreign hWord hNoChild => exact .inr ⟨by simp [place, hWord, hNoChild], rfl⟩

theorem place_cases (s : Scope) (full : List String) :
    (∃ path, s.place full = .inCrate path) ∨ s.place full = .outside full := by
  unfold place
  split
  · exact .inl ⟨_, rfl⟩
  · split
    · exact .inl ⟨_, rfl⟩
    · split
      · exact .inl ⟨_, rfl⟩
      · split
        · exact .inl ⟨_, rfl⟩
        · exact .inr rfl

/-- Apart from the built-in names a path is found at its place unless it starts at `Self`. -/
theorem place_eq_locate_iff (s : Scope) {full : List String} (hNonempty : full ≠ [])
    (hBuiltIn : TypeRef.isPrimitiveName (joinPath full) = false) :
    s.place full = s.locate full ↔ ∀ rest, s.locate full ≠ .ofSelf rest := by
  obtain ⟨first, rest, rfl⟩ := List.exists_cons_of_ne_nil hNonempty
  have hPlace : ∀ rest', s.place (first :: rest) ≠ .ofSelf rest' := by
    intro rest' hSelf
    rcases s.place_cases (first :: rest) with ⟨path, hPlace⟩ | hPlace <;>
      rw [hSelf] at hPlace <;> cases hPlace
  unfold locate
  dsimp only
  split
  · exact ⟨fun hSame => absurd hSame (hPlace rest), fun hNo => absurd rfl (hNo rest)⟩
  · have hOther : (rest.isEmpty && TypeRef.isPrimitiveName first) = false := by
      cases rest with
      | nil => simpa [joinPath_singleton] using hBuiltIn
      | cons second rest => rfl
    rw [hOther, if_neg Bool.false_ne_true]
    exact ⟨fun _ => hPlace, fun _ => rfl⟩

theorem place_eq_outside_iff {full : List String} (hNonempty : full ≠ []) :
    s.place full = .outside full ↔ NamesCrate s.modulePath s.modules full := by
  obtain ⟨first, rest, rfl⟩ := List.exists_cons_of_ne_nil hNonempty
  unfold place
  dsimp only
  constructor
  · intro hOutside
    split at hOutside
    · cases hOutside
    · rename_i hCrate
      split at hOutside
      · cases hOutside
      · rename_i hClimb
        split at hOutside
        · cases hOutside
        · rename_i hChild
          simp only [Bool.or_eq_true, beq_iff_eq, not_or, List.contains_iff_mem,
            Bool.not_eq_true] at hCrate hClimb hChild
          cases rest with
          | nil => exact absurd hChild.1 (by decide)
          | cons second rest => exact .mk (not_mem_moduleWords.mpr ⟨hCrate, hClimb⟩) hChild.2
  · rintro ⟨hWord, hChild⟩
    rw [not_mem_moduleWords] at hWord
    simp [hWord, hChild]

end Scope

/-! ## Types that can be moved -/

/-- The name that anchoring leaves as it is: one of the prelude, or a built-in one. -/
def TypeRef.bareName? (t : TypeRef) : Option String :=
  if isPrelude t.path t.qualifiedName then some t.path
  else if isPrimitiveName t.qualifiedName then some t.qualifiedName
  else none

/-- Whether the anchored name of a type means in the second scope what the name means in the first:
a bare name has to mean the same in both, a path of another crate must not look like one of the
crate, and no name may start at `Self`. -/
structure Movable (s₁ s₂ : Scope) (t : TypeRef) : Prop where
  bare : ∀ name ∈ t.bareName?, s₁.meaning? t = some (s₂.item false [name])
  outside : t.bareName? = none →
    s₁.startsOutside (isGlobalPath t.path) (pathSegments t.path) = true →
    NamesCrate s₁.modulePath s₁.modules (s₁.fullPath (isGlobalPath t.path) (pathSegments t.path))
  relative : t.bareName? = none → ∀ rest, s₁.meaning? t ≠ some (.ofSelf rest)

/-- A type that is named by a path of the scope. -/
structure Scope.Names (s : Scope) (t : TypeRef) (leadingColon : Bool) (segments : List String) :
    Prop where
  nonempty : segments ≠ []
  spelled : ∀ x ∈ segments, IsSegment x
  written : t.path = writtenPath leadingColon segments
  notSlice : t.qualifiedName ≠ TypeRef.sliceName
  fullNonempty : s.fullPath leadingColon segments ≠ []
  fullSpelled : ∀ x ∈ s.fullPath leadingColon segments, IsSegment x
  fullName : t.qualifiedName = joinPath (s.fullPath leadingColon segments)

section

variable {s s₁ s₂ : Scope} {t : TypeRef} {leadingColon : Bool} {segments : List String}

theorem Scope.Names.path_ne_unit (h : s.Names t leadingColon segments) : t.path ≠ "()" := by
  rw [h.written]
  exact writtenPath_ne_unit h.nonempty h.spelled

theorem Scope.meaning?_of_named (s : Scope) (hUnit : t.path ≠ "()")
    (hSlice : t.qualifiedName ≠ TypeRef.sliceName) :
    s.meaning? t = some (s.item (isGlobalPath t.path) (pathSegments t.path)) := by
  simp [meaning?, TypeRef.isSlice, hUnit, hSlice]

theorem Scope.Names.meaning (h : s.Names t leadingColon segments) :
    s.meaning? t = some (s.item leadingColon segments) := by
  have hWritten := @pathSegments_writtenPath leadingColon segments h.nonempty h.spelled
  have hGlobal := @isGlobalPath_writtenPath leadingColon segments h.nonempty h.spelled
  rw [s.meaning?_of_named h.path_ne_unit h.notSlice, h.written, hWritten, hGlobal]

theorem bareName_spelled {name : String} (h : name ∈ t.bareName?) : IsSegment name := by
  have hAll : ∀ name ∈ preludeTypes.map (·.1) ++ "str" :: TypeRef.scalarNames,
      Source.isSegment name = true := by decide +kernel
  refine Source.isSegment_iff.mp (hAll name (List.mem_append.mpr ?_))
  unfold TypeRef.bareName? at h
  split at h
  · rename_i hPrelude
    obtain rfl := Option.some.inj h
    exact .inl (List.mem_map.mpr ⟨_, List.contains_iff_mem.mp hPrelude, rfl⟩)
  · split at h
    · rename_i hBuiltIn
      obtain rfl := Option.some.inj h
      right
      simpa [TypeRef.isPrimitiveName] using hBuiltIn
    · cases h

theorem anchorPath_builtIn {name : String} (h : TypeRef.isPrimitiveName name = true)
    (modulePath : List String) (modules : List (List String)) :
    anchorPath name modulePath modules = name := by
  have hAll : ∀ name ∈ "str" :: TypeRef.scalarNames, splitPath name = [name] ∧
      name ∉ moduleWords := by decide +kernel
  obtain ⟨hAlone, hWord⟩ := hAll name (by simpa [TypeRef.isPrimitiveName] using h)
  rw [not_mem_moduleWords] at hWord
  unfold anchorPath
  simp [hAlone, hWord, h]

theorem Scope.Names.anchored_path (h : s.Names t leadingColon segments) (modulePath : List String)
    (modules : List (List String)) :
    (t.anchored modulePath modules).path =
      t.bareName?.getD (anchorPath t.qualifiedName modulePath modules) := by
  have hUnit := h.path_ne_unit
  have hSlice := h.notSlice
  obtain ⟨qualifiedName, path, arguments, nullable, byRef, lifetime⟩ := t
  rw [TypeRef.anchored, TypeRef.bareName?]
  dsimp only at hUnit hSlice ⊢
  rw [beq_false_of_ne hUnit, beq_false_of_ne hSlice, Bool.false_or, Bool.false_or]
  split
  · rfl
  · split
    · rename_i hBuiltIn
      exact anchorPath_builtIn hBuiltIn modulePath modules
    · rfl

/-- How the name of a type is anchored: not at all, from the crate on, or from another crate on. -/
inductive AnchoredAs (s : Scope) (t : TypeRef) (full : List String) : Bool → List String → Prop
  | bare {name : String} (hBare : name ∈ t.bareName?) : AnchoredAs s t full false [name]
  | inCrate {path : List String} (hBare : t.bareName? = none) (hPlace : s.place full = .inCrate path)
      (hPath : ∀ x ∈ path, IsSegment x) : AnchoredAs s t full false ("crate" :: path)
  | outside (hBare : t.bareName? = none) (hPlace : s.place full = .outside full)
      (hNonempty : full ≠ []) (hFull : ∀ x ∈ full, IsSegment x) : AnchoredAs s t full true full

theorem not_builtIn_of_bareName? (h : t.bareName? = none) :
    TypeRef.isPrimitiveName t.qualifiedName = false := by
  unfold TypeRef.bareName? at h
  split at h
  · cases h
  · split at h
    · cases h
    · rename_i hBuiltIn
      simpa using hBuiltIn

theorem Scope.Names.exists_anchored (h : s.Names t leadingColon segments)
    (hModule : ∀ x ∈ s.modulePath, IsSegment x) :
    ∃ isGlobal names, AnchoredAs s t (s.fullPath leadingColon segments) isGlobal names ∧
      (t.anchored s.modulePath s.modules).path = writtenPath isGlobal names := by
  rw [h.anchored_path]
  cases hBare : t.bareName? with
  | some name =>
    refine ⟨false, [name], .bare hBare, ?_⟩
    rw [writtenPath, if_neg Bool.false_ne_true, String.empty_append, joinPath_singleton]
    rfl
  | none =>
    have hBuiltIn := not_builtIn_of_bareName? hBare
    rw [Option.getD_none, h.fullName]
    rcases s.anchorPath_cases h.fullNonempty h.fullSpelled hModule (h.fullName ▸ hBuiltIn) with
      ⟨path, hPath, hPlace, hAnchor⟩ | ⟨hPlace, hAnchor⟩
    · exact ⟨false, _, .inCrate hBare hPlace hPath, hAnchor⟩
    · exact ⟨true, _, .outside hBare hPlace h.fullNonempty h.fullSpelled, hAnchor⟩

theorem AnchoredAs.spelled {full names : List String} {isGlobal : Bool}
    (h : AnchoredAs s t full isGlobal names) : names ≠ [] ∧ ∀ x ∈ names, IsSegment x := by
  cases h with
  | bare hBare => exact ⟨List.cons_ne_nil _ _, by simpa using bareName_spelled hBare⟩
  | inCrate _ _ hPath =>
    have hCrate : IsSegment "crate" := Source.isSegment_iff.mp (by decide)
    exact ⟨List.cons_ne_nil _ _, List.forall_mem_cons.mpr ⟨hCrate, hPath⟩⟩
  | outside _ _ hNonempty hFull => exact ⟨hNonempty, hFull⟩

/-- A name that is anchored stands in every scope for the item at its place. -/
theorem AnchoredAs.item {full names : List String} {isGlobal : Bool}
    (h : AnchoredAs s t full isGlobal names) (hBare : t.bareName? = none) (s' : Scope) :
    s'.item isGlobal names = s.place full := by
  cases h with
  | bare hName => cases hBare.symm.trans hName
  | inCrate _ hPlace => rw [hPlace, s'.item_crate]
  | outside _ hPlace hNonempty =>
    obtain ⟨first, rest, rfl⟩ := List.exists_cons_of_ne_nil hNonempty
    exact hPlace.symm

theorem AnchoredAs.meaning {full names : List String} {isGlobal : Bool}
    (h : AnchoredAs s t full isGlobal names) (s' : Scope) {u : TypeRef}
    (hPath : u.path = writtenPath isGlobal names) (hSlice : u.qualifiedName ≠ TypeRef.sliceName) :
    s'.meaning? u = some (s'.item isGlobal names) := by
  obtain ⟨hNonempty, hNames⟩ := h.spelled
  have hUnit : u.path ≠ "()" := by
    rw [hPath]
    exact writtenPath_ne_unit hNonempty hNames
  rw [s'.meaning?_of_named hUnit hSlice, hPath, pathSegments_writtenPath hNonempty hNames,
    isGlobalPath_writtenPath hNonempty hNames]

theorem movable_iff_of_anchored (h : s₁.Names t leadingColon segments) (hBare : t.bareName? = none) :
    Movable s₁ s₂ t ↔ s₁.place (s₁.fullPath leadingColon segments) = s₁.item leadingColon segments := by
  have hWritten := @pathSegments_writtenPath leadingColon segments h.nonempty h.spelled
  have hGlobal := @isGlobalPath_writtenPath leadingColon segments h.nonempty h.spelled
  have hMovable : Movable s₁ s₂ t ↔ (s₁.startsOutside leadingColon segments = true →
      NamesCrate s₁.modulePath s₁.modules (s₁.fullPath leadingColon segments)) ∧
        ∀ rest, s₁.item leadingColon segments ≠ .ofSelf rest := by
    constructor
    · rintro ⟨_, hOutside, hRelative⟩
      rw [h.written, hWritten, hGlobal] at hOutside
      rw [h.meaning] at hRelative
      exact ⟨hOutside hBare, fun rest hSelf => hRelative hBare rest (congrArg some hSelf)⟩
    · rintro ⟨hOutside, hRelative⟩
      refine ⟨by simp [hBare], fun _ => ?_, fun _ rest hSelf => ?_⟩
      · rw [h.written, hWritten, hGlobal]
        exact hOutside
      · rw [h.meaning] at hSelf
        exact hRelative rest (Option.some.inj hSelf)
  rw [hMovable]
  cases hOutside : s₁.startsOutside leadingColon segments with
  | true =>
    have hItem : s₁.item leadingColon segments = .outside (s₁.fullPath leadingColon segments) := by
      rw [Scope.item, hOutside, if_pos rfl]
    rw [hItem, Scope.place_eq_outside_iff h.fullNonempty]
    simp
  | false =>
    have hItem : s₁.item leadingColon segments = s₁.locate (s₁.fullPath leadingColon segments) := by
      rw [Scope.item, hOutside, if_neg Bool.false_ne_true]
    have hBuiltIn := not_builtIn_of_bareName? hBare
    rw [hItem, s₁.place_eq_locate_iff h.fullNonempty (h.fullName ▸ hBuiltIn)]
    simp

/-- The anchored name of a type means elsewhere what the name means exactly if it can be moved. -/
theorem AnchoredAs.item_eq_iff (h : s₁.Names t leadingColon segments) {isGlobal : Bool}
    {names : List String} (hAnchored : AnchoredAs s₁ t (s₁.fullPath leadingColon segments) isGlobal names) :
    s₂.item isGlobal names = s₁.item leadingColon segments ↔ Movable s₁ s₂ t := by
  cases hBare : t.bareName? with
  | none => rw [hAnchored.item hBare, movable_iff_of_anchored h hBare]
  | some name =>
    have hMeaning := h.meaning
    cases hAnchored with
    | inCrate hNone => cases hBare.symm.trans hNone
    | outside hNone => cases hBare.symm.trans hNone
    | bare hName =>
      constructor
      · intro hSame
        refine ⟨?_, by simp [hBare], by simp [hBare]⟩
        rintro _ hOther
        obtain rfl := Option.some.inj (hName.symm.trans hOther)
        rw [hMeaning, hSame]
      · intro hMovable
        have hSame := hMovable.bare _ hName
        rw [hMeaning] at hSame
        exact (Option.some.inj hSame).symm

theorem meaning_anchored_iff (h : s₁.Names t leadingColon segments)
    (hModule : ∀ x ∈ s₁.modulePath, IsSegment x) :
    s₂.meaning? (t.anchored s₁.modulePath s₁.modules) = s₁.meaning? t ↔ Movable s₁ s₂ t := by
  obtain ⟨isGlobal, names, hAnchored, hPath⟩ := h.exists_anchored hModule
  have hSlice : (t.anchored s₁.modulePath s₁.modules).qualifiedName ≠ TypeRef.sliceName := by
    rw [TypeRef.anchored_qualifiedName]
    exact h.notSlice
  rw [hAnchored.meaning s₂ hPath hSlice, h.meaning, Option.some.injEq, hAnchored.item_eq_iff h]

/-! ## Options -/

theorem Scope.fullPath_spelled (hItems : ∀ item ∈ s.items, item.wellNamed = true)
    (hSegments : ∀ x ∈ segments, IsSegment x) (leadingColon : Bool) :
    ∀ x ∈ s.fullPath leadingColon segments, IsSegment x := by
  have hPrelude : ∀ entry ∈ preludeTypes, ∀ x ∈ splitPath entry.2, Source.isSegment x = true := by
    decide +kernel
  unfold fullPath
  split
  · simp
  · rename_i first rest
    split
    · exact hSegments
    · split
      · rename_i source hSource
        have hTarget : (Imports.ofItems s.items).target? first = some source.target := by
          rw [Imports.target?_ofItems, hSource, Option.map_some]
        obtain ⟨entry, hFind, hEntry⟩ := Option.map_eq_some_iff.mp hTarget
        rw [← hEntry]
        exact List.forall_mem_append.mpr
          ⟨Imports.ofItems_spelled hItems entry (List.mem_of_find?_eq_some hFind),
            (List.forall_mem_cons.mp hSegments).2⟩
      · split
        · rename_i name path hFind
          exact fun x hx => Source.isSegment_iff.mp
            (hPrelude _ (List.mem_of_find?_eq_some hFind) x hx)
        · exact hSegments

theorem Scope.getLast?_of_inCrate {path : List String} {first second : String} {rest : List String}
    (hFull : s.fullPath leadingColon segments = first :: second :: rest) (hWord : first ∉ moduleWords)
    (hItem : s.item leadingColon segments = .inCrate path) :
    path.getLast? = (second :: rest).getLast? := by
  rw [not_mem_moduleWords] at hWord
  unfold item at hItem
  rw [hFull] at hItem
  split at hItem
  · cases hItem
  · unfold locate place at hItem
    dsimp only at hItem
    split at hItem
    · cases hItem
    · simp only [List.isEmpty_cons, Bool.false_and, Bool.false_eq_true, if_false, hWord, beq_iff_eq,
        Bool.or_eq_true, or_self, Bool.false_or] at hItem
      split at hItem
      · cases hItem
        rw [List.getLast?_append_of_ne_nil _ (List.cons_ne_nil _ _), List.getLast?_cons_cons]
      · cases hItem

theorem Scope.fullPath_of_qualify {known : List String}
    (hFull : ∀ x ∈ s.fullPath leadingColon segments, IsSegment x) {name : String}
    (hKnown : name ∈ known) (hNonempty : "" ∉ known)
    (hName : s.imports.qualify segments leadingColon = name) :
    s.fullPath leadingColon segments = splitPath name := by
  rw [s.qualify_eq] at hName
  by_cases hNil : s.fullPath leadingColon segments = []
  · rw [hNil] at hName
    exact absurd hKnown (hName ▸ hNonempty)
  · rw [← hName, splitPath_joinPath hNil fun x hx => (hFull x hx).unbroken]

theorem last_option {path : List String} (hFull : ∀ x ∈ s.fullPath leadingColon segments, IsSegment x)
    (hItem : s.item leadingColon segments = .inCrate path)
    (hOption : isOptionName (s.imports.qualify segments leadingColon) = true) :
    path.getLast? = some "Option" := by
  have hKnown : s.imports.qualify segments leadingColon ∈
      ["std::option::Option", "core::option::Option"] := by
    simpa [isOptionName] using hOption
  have hPath := s.fullPath_of_qualify hFull hKnown (by decide) rfl
  simp only [List.mem_cons, List.not_mem_nil, or_false] at hKnown
  rcases hKnown with hName | hName
  · have hSplit : splitPath "std::option::Option" = ["std", "option", "Option"] := by decide +kernel
    rw [hName, hSplit] at hPath
    rw [Scope.getLast?_of_inCrate hPath (by decide) hItem]
    rfl
  · have hSplit : splitPath "core::option::Option" = ["core", "option", "Option"] := by decide +kernel
    rw [hName, hSplit] at hPath
    rw [Scope.getLast?_of_inCrate hPath (by decide) hItem]
    rfl

theorem Scope.not_option_crate (s : Scope) (path : List String) :
    isOptionName (s.imports.qualify ("crate" :: path) false) = false := by
  have hHead : (s.imports.qualify ("crate" :: path) false).toList.take 2 = ['c', 'r'] := by
    rw [s.qualify_eq, (s.fullPath_crate path).2]
    cases path with
    | nil => decide +kernel
    | cons first rest =>
      rw [joinPath_cons_cons, String.toList_append, String.toList_append]
      rfl
  rw [isOptionName, Bool.or_eq_false_iff]
  constructor <;> refine beq_false_of_ne fun hSame => ?_ <;> rw [hSame] at hHead <;>
    exact absurd hHead (by decide)

theorem Scope.Names.option_of_bare (h : s.Names t leadingColon segments) {name : String}
    (hBare : name ∈ t.bareName?) {path : List String}
    (hItem : s.item leadingColon segments = .inCrate path)
    (hLast : path.getLast? = some "Option") : isOptionName t.qualifiedName = true := by
  have hFull : s.fullPath leadingColon segments = splitPath t.qualifiedName := by
    rw [h.fullName, splitPath_joinPath h.fullNonempty fun x hx => (h.fullSpelled x hx).unbroken]
  unfold TypeRef.bareName? at hBare
  split at hBare
  · rename_i hPrelude
    have hKnown : ∀ entry ∈ preludeTypes,
        splitPath entry.2 = ["std", (splitPath entry.2).getD 1 "", entry.1] ∧
          (entry.1 = "Option" → isOptionName entry.2 = true) := by decide +kernel
    obtain ⟨hSplit, hOption⟩ := hKnown _ (List.contains_iff_mem.mp hPrelude)
    rw [hSplit] at hFull
    rw [Scope.getLast?_of_inCrate hFull (by decide) hItem] at hLast
    exact hOption (Option.some.inj hLast)
  · split at hBare
    · rename_i hBuiltIn
      have hAll : ∀ name ∈ "str" :: TypeRef.scalarNames, splitPath name = [name] ∧ name ≠ "Self" := by
        decide +kernel
      obtain ⟨hAlone, hSelf⟩ := hAll t.qualifiedName (by simpa [TypeRef.isPrimitiveName] using hBuiltIn)
      unfold Scope.item at hItem
      rw [hFull, hAlone] at hItem
      split at hItem
      · cases hItem
      · simp [Scope.locate, hSelf, hBuiltIn] at hItem
    · cases hBare

theorem AnchoredAs.not_option (h : s₁.Names t leadingColon segments) {isGlobal : Bool}
    {names : List String} (hAnchored : AnchoredAs s₁ t (s₁.fullPath leadingColon segments) isGlobal names)
    (hItems : ∀ item ∈ s₂.items, item.wellNamed = true) (hMovable : Movable s₁ s₂ t)
    (hOption : isOptionName (s₂.imports.qualify names isGlobal) = true) :
    isOptionName t.qualifiedName = true := by
  have hSame := (hAnchored.item_eq_iff h).mpr hMovable
  have hFirst : s₁.imports.qualify segments leadingColon = t.qualifiedName := by
    rw [s₁.qualify_eq, h.fullName]
  cases hName : (s₁.item leadingColon segments).fullName? with
  | some name =>
    have hSecond := Scope.fullName?_item (hSame ▸ hName)
    rw [← hFirst, Scope.fullName?_item hName, ← hSecond]
    exact hOption
  | none =>
    obtain ⟨path, hItem⟩ : ∃ path, s₁.item leadingColon segments = .inCrate path := by
      cases hItem : s₁.item leadingColon segments with
      | inCrate path => exact ⟨path, rfl⟩
      | outside | builtIn | ofSelf => rw [hItem] at hName; cases hName
    have hLast := last_option (s₂.fullPath_spelled hItems hAnchored.spelled.2 _) (hSame.trans hItem)
      hOption
    have hPlace (hBare : t.bareName? = none) := hAnchored.item hBare s₂
    cases hAnchored with
    | inCrate => exact absurd hOption (by simp [s₂.not_option_crate])
    | outside hBare hOutside =>
      rw [hPlace hBare, hOutside] at hSame
      cases hSame.trans hItem
    | bare hBare => exact h.option_of_bare hBare hItem hLast

end

end TraitClient
