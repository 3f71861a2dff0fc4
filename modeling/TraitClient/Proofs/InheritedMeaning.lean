import TraitClient.Proofs.ScopedNames

/-!
# What inherited types mean

A type of a supertrait is spelled again in the module of the service, where other imports are in
force.  It can be read and resolved there, and it means the same at every name in it as in the module
of the supertrait, as long as each of its names can be moved.
-/
namespace TraitClient

open Code (IsSegment)

/-! ## Resolved types -/

/-- A type as it is resolved in a scope, with a spelling in every other. -/
structure Scope.Resolves (s : Scope) (t : TypeRef) : Prop where
  settled : t.Settled s.imports
  requalified : t.requalified s.imports = t
  spelled : t.Spelled true

/-- The types that a type is made of, itself among them. -/
inductive TypeRef.Occurs (n : TypeRef) : TypeRef → Prop
  | itself : Occurs n n
  | inside {t a : TypeRef} (ha : a ∈ t.arguments) (h : Occurs n a) : Occurs n t

namespace Scope

variable {s : Scope} {t : TypeRef}

theorem Resolves.argument (h : s.Resolves t) {a : TypeRef} (ha : a ∈ t.arguments) :
    s.Resolves a := by
  obtain ⟨hSettled, hSame, hSpelled⟩ := h
  refine ⟨?_, ?_, ?_⟩
  · cases hSettled with
    | unit => cases ha
    | slice _ _ hElement =>
      obtain rfl := List.mem_singleton.mp ha
      exact hElement
    | path _ _ _ _ _ _ hArguments => exact hArguments a ha
  · obtain ⟨qualifiedName, path, arguments, nullable, byRef, lifetime⟩ := t
    have hArguments : arguments.map (·.requalified s.imports) = arguments := by
      rw [← TypeRef.requalifiedAll_eq]
      exact congrArg TypeRef.arguments hSame
    exact List.map_inj_left.mp (hArguments.trans (List.map_id _).symm) a ha
  · cases hSpelled with
    | mk _ _ hArguments => exact hArguments a ha

theorem Resolves.of_occurs (h : s.Resolves t) {n : TypeRef} (hOccurs : n.Occurs t) : s.Resolves n := by
  induction hOccurs with
  | itself => exact h
  | inside ha _ ih => exact ih (h.argument ha)

theorem Resolves.exists_names (h : s.Resolves t) (hItems : ∀ item ∈ s.items, item.wellNamed = true)
    (hNamed : s.meaning? t ≠ none) :
    (∃ leadingColon segments, s.Names t leadingColon segments) ∧
      (isOptionName t.qualifiedName = true → t.arguments.length ≠ 1) := by
  obtain ⟨hSettled, hSame, hSpelled⟩ := h
  cases hSettled with
  | unit => exact absurd rfl hNamed
  | slice => exact absurd rfl hNamed
  | @path nullable byRef lifetime _ qualifiedName leadingColon segments arguments hName hNonempty
      hSegments hOption =>
    have hUnit := @writtenPath_ne_unit leadingColon segments hNonempty hSegments
    have hQualify : s.imports.qualify segments leadingColon = qualifiedName := by
      have hFirst := congrArg TypeRef.qualifiedName hSame
      simpa only [TypeRef.requalified, beq_false_of_ne hUnit, beq_false_of_ne hName, Bool.or_self,
        Bool.false_eq_true, if_false, pathSegments_writtenPath hNonempty hSegments,
        isGlobalPath_writtenPath hNonempty hSegments] using hFirst
    have hQualified := hQualify.symm.trans (s.qualify_eq leadingColon segments)
    refine ⟨?_, hQualify ▸ hOption⟩
    have hFull := s.fullPath_spelled hItems hSegments leadingColon
    refine ⟨leadingColon, segments, hNonempty, hSegments, rfl, hName, ?_, hFull, hQualified⟩
    cases hSpelled with
    | mk _ hBase _ =>
      obtain ⟨full, hSpelled, hJoined, hEnds⟩ := ((hBase.resolve_left hUnit).resolve_left
        fun hSlice => hName hSlice.1).full
      obtain ⟨hFullNonempty, _⟩ := hEnds rfl
      intro hNil
      rw [hQualified, hNil] at hJoined
      have hSplit := splitPath_joinPath hFullNonempty fun x hx => (hSpelled x hx).unbroken
      rw [← hJoined] at hSplit
      have hEmpty : splitPath (joinPath []) = [""] := by decide +kernel
      have hToken := (hSpelled "" (by rw [← hSplit, hEmpty]; exact List.mem_singleton_self _)).token
      exact absurd hToken (by decide)

theorem resolves_of_resolve (hItems : ∀ item ∈ s.items, item.wellNamed = true)
    {type : Source.TypeExpr} (hNames : type.wellNamed = true)
    (hSpelling : Extraction.HasSpelling s.imports true type) (h : s.imports.resolve type = .ok t) :
    s.Resolves t := by
  have hImports := Imports.ofItems_spelled hItems
  have hMade : Imports.Made s.imports (Imports.SpellsPart s.imports true) t :=
    Imports.resolve_made type
      (fun part hPart => ⟨List.all_eq_true.mp hNames part hPart, hSpelling part hPart⟩) h
  exact ⟨hMade.settled hImports, hMade.requalified hImports, hMade.spelled hImports⟩

end Scope

/-! ## Types with the same meaning -/

/-- Types of which a request is encoded and a signature is checked in the same way. -/
structure SameKind (types : RuntimeTypes) (t u : TypeRef) : Prop where
  unit : u.isUnit = t.isUnit
  list : u.isList = t.isList
  map : u.isMap = t.isMap
  text : u.isText = t.isText
  scalar : u.isScalar = t.isScalar
  part : types.isPart u = types.isPart t

/-- A type in one scope and one in another that mean the same at each of their names.  What is not in
the crate is of the same kind in both. -/
inductive SameMeaning (s₁ s₂ : Scope) : TypeRef → TypeRef → Prop
  | mk {t u : TypeRef} (item : s₂.meaning? u = s₁.meaning? t) (nullable : u.nullable = t.nullable)
      (byRef : u.byRef = t.byRef) (lifetime : u.lifetime = t.lifetime)
      (kind : (∀ path, s₁.meaning? t ≠ some (.inCrate path)) → ∀ types, SameKind types t u)
      (arguments : List.Forall₂ (SameMeaning s₁ s₂) t.arguments u.arguments) : SameMeaning s₁ s₂ t u

/-- Whether the tokens of an anchored type are a type that is resolved in the other scope, and means
there what the type means in its own. -/
def KeepsMeaning (s₁ s₂ : Scope) (t : TypeRef) : Prop :=
  ∃ e u, Source.parseTypeTokens? (t.anchored s₁.modulePath s₁.modules).tokens = some e ∧
    s₂.imports.resolve e = .ok u ∧ SameMeaning s₁ s₂ t u

theorem sameKind_of_names {types : RuntimeTypes} {t u : TypeRef}
    (hName : u.qualifiedName = t.qualifiedName) (hNullable : u.nullable = t.nullable)
    (hArguments : u.arguments.length = t.arguments.length) : SameKind types t u := by
  constructor <;>
    simp [TypeRef.isUnit, TypeRef.isList, TypeRef.isMap, TypeRef.isText, TypeRef.isScalar,
      RuntimeTypes.isPart, hName, hNullable, hArguments]

variable {s₁ s₂ : Scope} {t : TypeRef}

theorem anchored_eq {path : String} {modulePath : List String} {modules : List (List String)}
    (hPath : (t.anchored modulePath modules).path = path) :
    t.anchored modulePath modules = ⟨t.qualifiedName, path,
      t.arguments.map (·.anchored modulePath modules), t.nullable, t.byRef, t.lifetime⟩ := by
  obtain ⟨qualifiedName, path, arguments, nullable, byRef, lifetime⟩ := t
  rw [← hPath, TypeRef.anchored, anchoredAll_eq]

section Unnamed

variable (nullable byRef : Bool) (lifetime : Option String) (element : TypeRef)
  (modulePath : List String) (modules : List (List String)) (imports : Imports)

theorem meaning?_unit (s : Scope) :
    s.meaning? ⟨TypeRef.unitName, "()", [], nullable, byRef, lifetime⟩ = none := by
  simp [Scope.meaning?]

theorem meaning?_slice (s : Scope) :
    s.meaning? ⟨TypeRef.sliceName, TypeRef.sliceName, [element], nullable, byRef, lifetime⟩ =
      none := by
  simp [Scope.meaning?, TypeRef.isSlice]

theorem anchored_unit :
    TypeRef.anchored modulePath modules ⟨TypeRef.unitName, "()", [], nullable, byRef, lifetime⟩ =
      ⟨TypeRef.unitName, "()", [], nullable, byRef, lifetime⟩ := by
  simp [TypeRef.anchored, TypeRef.anchoredAll]

theorem requalified_unit :
    TypeRef.requalified imports ⟨TypeRef.unitName, "()", [], nullable, byRef, lifetime⟩ =
      ⟨TypeRef.unitName, "()", [], nullable, byRef, lifetime⟩ := by
  simp [TypeRef.requalified, TypeRef.requalifiedAll]

theorem anchored_slice :
    TypeRef.anchored modulePath modules
        ⟨TypeRef.sliceName, TypeRef.sliceName, [element], nullable, byRef, lifetime⟩ =
      ⟨TypeRef.sliceName, TypeRef.sliceName, [element.anchored modulePath modules], nullable, byRef,
        lifetime⟩ := by
  simp [TypeRef.anchored, TypeRef.anchoredAll]

theorem requalified_slice :
    TypeRef.requalified imports
        ⟨TypeRef.sliceName, TypeRef.sliceName, [element], nullable, byRef, lifetime⟩ =
      ⟨TypeRef.sliceName, TypeRef.sliceName, [element.requalified imports], nullable, byRef,
        lifetime⟩ := by
  simp [TypeRef.requalified, TypeRef.requalifiedAll]

end Unnamed

theorem same_fullName {leadingColon isGlobal : Bool} {segments names : List String}
    (hSame : s₂.item isGlobal names = s₁.item leadingColon segments)
    (hOutside : ∀ path, s₁.item leadingColon segments ≠ .inCrate path) :
    s₂.imports.qualify names isGlobal = s₁.imports.qualify segments leadingColon := by
  have hName : ∃ name, (s₁.item leadingColon segments).fullName? = some name := by
    cases hItem : s₁.item leadingColon segments with
    | inCrate path => exact absurd hItem (hOutside path)
    | outside | builtIn | ofSelf => exact ⟨_, rfl⟩
  obtain ⟨name, hName⟩ := hName
  rw [Scope.fullName?_item hName, Scope.fullName?_item (hSame ▸ hName)]

theorem anchored_sameMeaning_named {leadingColon : Bool} {segments : List String}
    (hNames : s₁.Names t leadingColon segments)
    (hOption : isOptionName t.qualifiedName = true → t.arguments.length ≠ 1)
    (hLifetime : t.byRef = false → t.lifetime = none)
    (hItems₂ : ∀ item ∈ s₂.items, item.wellNamed = true)
    (hModule : ∀ x ∈ s₁.modulePath, IsSegment x) (hMovable : Movable s₁ s₂ t)
    (hArguments : ∀ a ∈ t.arguments, (a.anchored s₁.modulePath s₁.modules).Settled s₂.imports ∧
      SameMeaning s₁ s₂ a ((a.anchored s₁.modulePath s₁.modules).requalified s₂.imports)) :
    (t.anchored s₁.modulePath s₁.modules).Settled s₂.imports ∧
      SameMeaning s₁ s₂ t ((t.anchored s₁.modulePath s₁.modules).requalified s₂.imports) := by
  obtain ⟨isGlobal, names, hAnchored, hPath⟩ := hNames.exists_anchored hModule
  obtain ⟨hNonempty, hSpelled⟩ := hAnchored.spelled
  have hItem := (hAnchored.item_eq_iff hNames).mpr hMovable
  have hUnit := @writtenPath_ne_unit isGlobal names hNonempty hSpelled
  have hSlice := Imports.qualify_ne_sliceName (Imports.ofItems_spelled hItems₂) hSpelled isGlobal
  rw [anchored_eq hPath]
  constructor
  · refine .path t.nullable hLifetime hNames.notSlice hNonempty hSpelled ?_ ?_
    · rw [List.length_map]
      exact fun h => hOption (hAnchored.not_option hNames hItems₂ hMovable h)
    · rintro _ hMem
      obtain ⟨a, ha, rfl⟩ := List.mem_map.mp hMem
      exact (hArguments a ha).1
  · have hType : TypeRef.requalified s₂.imports ⟨t.qualifiedName, writtenPath isGlobal names,
        t.arguments.map (·.anchored s₁.modulePath s₁.modules), t.nullable, t.byRef, t.lifetime⟩ =
        ⟨s₂.imports.qualify names isGlobal, writtenPath isGlobal names, t.arguments.map fun a =>
          (a.anchored s₁.modulePath s₁.modules).requalified s₂.imports, t.nullable, t.byRef,
          t.lifetime⟩ := by
      simp [TypeRef.requalified, TypeRef.requalifiedAll_eq, hUnit, hNames.notSlice,
        pathSegments_writtenPath hNonempty hSpelled, isGlobalPath_writtenPath hNonempty hSpelled]
    rw [hType]
    refine .mk ?_ rfl rfl rfl (fun hOutside types => ?_) ?_
    · rw [hAnchored.meaning s₂ rfl hSlice, hItem, hNames.meaning]
    · rw [hNames.meaning] at hOutside
      refine sameKind_of_names ?_ rfl (by simp)
      have hSame := same_fullName hItem fun path hIn => hOutside path (congrArg some hIn)
      rw [hNames.fullName, ← s₁.qualify_eq]
      exact hSame
    · rw [List.forall₂_map_right_iff, List.forall₂_same]
      exact fun a ha => (hArguments a ha).2

theorem anchored_sameMeaning (hItems₁ : ∀ item ∈ s₁.items, item.wellNamed = true)
    (hItems₂ : ∀ item ∈ s₂.items, item.wellNamed = true)
    (hModule : ∀ x ∈ s₁.modulePath, IsSegment x) (h : s₁.Resolves t)
    (hMovable : ∀ n, n.Occurs t → s₁.meaning? n ≠ none → Movable s₁ s₂ n) :
    (t.anchored s₁.modulePath s₁.modules).Settled s₂.imports ∧
      SameMeaning s₁ s₂ t ((t.anchored s₁.modulePath s₁.modules).requalified s₂.imports) := by
  have hSettled := h.settled
  induction hSettled with
  | @unit nullable byRef lifetime hLifetime =>
    rw [anchored_unit, requalified_unit]
    refine ⟨.unit nullable hLifetime, .mk ?_ rfl rfl rfl (fun _ _ => sameKind_of_names rfl rfl rfl) .nil⟩
    rw [meaning?_unit, meaning?_unit]
  | @slice nullable lifetime element _ ih =>
    have hElement := List.mem_singleton_self element
    obtain ⟨hSettled, hSame⟩ := ih (h.argument hElement) fun n hOccurs =>
      hMovable n (.inside hElement hOccurs)
    rw [anchored_slice, requalified_slice]
    refine ⟨.slice nullable lifetime hSettled,
      .mk ?_ rfl rfl rfl (fun _ _ => sameKind_of_names rfl rfl rfl) (.cons hSame .nil)⟩
    rw [meaning?_slice, meaning?_slice]
  | @path nullable byRef lifetime hLifetime qualifiedName leadingColon segments arguments hName
      hNonempty hSegments _ _ ih =>
    obtain ⟨hNames, hOption⟩ := h.exists_names hItems₁ (by
      rw [s₁.meaning?_of_named (writtenPath_ne_unit hNonempty hSegments) hName]
      simp)
    obtain ⟨_, _, hNames⟩ := hNames
    refine anchored_sameMeaning_named hNames hOption hLifetime hItems₂ hModule
      (hMovable _ .itself (by rw [hNames.meaning]; simp)) fun a ha => ?_
    exact ih a ha (h.argument ha) fun n hOccurs => hMovable n (.inside ha hOccurs)

/-- A type that is anchored in the module of a supertrait keeps its meaning in the module of the
service if all its names can be moved; a name that cannot be moved has another meaning there. -/
theorem anchored_keepsMeaning (s₁ s₂ : Scope)
    (hItems₁ : ∀ item ∈ s₁.items, item.wellNamed = true)
    (hItems₂ : ∀ item ∈ s₂.items, item.wellNamed = true)
    (hModule : ∀ x ∈ s₁.modulePath, IsSegment x) {type : Source.TypeExpr}
    (hNames : type.wellNamed = true) (hSpelling : Extraction.HasSpelling s₁.imports true type)
    {t : TypeRef} (h : s₁.imports.resolve type = .ok t) :
    ((∀ n, n.Occurs t → s₁.meaning? n ≠ none → Movable s₁ s₂ n) → KeepsMeaning s₁ s₂ t) ∧
      ∀ n, n.Occurs t → s₁.meaning? n ≠ none →
        (s₂.meaning? (n.anchored s₁.modulePath s₁.modules) = s₁.meaning? n ↔ Movable s₁ s₂ n) := by
  have hResolves := Scope.resolves_of_resolve hItems₁ hNames hSpelling h
  constructor
  · intro hMovable
    obtain ⟨hSettled, hSame⟩ := anchored_sameMeaning hItems₁ hItems₂ hModule hResolves hMovable
    have hLegible : (t.anchored s₁.modulePath s₁.modules).Legible :=
      hResolves.spelled.anchored hModule
    obtain ⟨e, hParse, hMeans⟩ := hLegible.parse
    exact ⟨e, _, hParse, hMeans s₂.imports hSettled, hSame⟩
  · intro n hOccurs hNamed
    obtain ⟨⟨_, _, hNames⟩, _⟩ := (hResolves.of_occurs hOccurs).exists_names hItems₁ hNamed
    exact meaning_anchored_iff hNames hModule

/-! ### A method of a base trait -/

/-- `Result<(), ApiError>`. -/
def pingResult : Source.TypeExpr :=
  .path [] false [.mk "Result" (.angle [.type .unit, .type (bareType false ["ApiError"])])]

def apiError : TypeRef := .named "ApiError" "ApiError"

def pingReturn : TypeRef :=
  { TypeRef.named "std::result::Result" "Result" with arguments := [.unit, apiError] }

theorem crateWord_of_unbound {items : List Source.Item} (h : Imports.source? items "crate" = none) :
    ∀ source ∈ Imports.source? items "crate", source = ⟨"crate", false, ["crate"]⟩ := by
  rw [h]
  nofun

def baseScope : Scope :=
  ⟨[], ["base"], [[], ["api"], ["base"]], crateWord_of_unbound rfl⟩

def docsScope : Scope :=
  ⟨[.use false (.path "crate" (.path "base" (.name "Base")))], ["api"], [[], ["api"], ["base"]],
    crateWord_of_unbound (by decide +kernel)⟩

/-- The module of a service that imports another `Result`. -/
def filesScope : Scope :=
  ⟨[.use false (.path "std" (.path "io" (.name "Result")))], ["api"], [[], ["api"], ["base"]],
    crateWord_of_unbound (by decide +kernel)⟩

theorem resolve_pingResult : baseScope.imports.resolve pingResult = .ok pingReturn := rfl

theorem occurs_pingReturn {n : TypeRef} (h : n.Occurs pingReturn)
    (hNamed : baseScope.meaning? n ≠ none) : n = pingReturn ∨ n = apiError := by
  cases h with
  | itself => exact .inl rfl
  | @inside _ a ha h =>
    right
    simp only [pingReturn, List.mem_cons, List.not_mem_nil, or_false] at ha
    rcases ha with rfl | rfl
    · cases h with
      | itself => exact absurd rfl hNamed
      | inside ha => cases ha
    · cases h with
      | itself => rfl
      | inside ha => cases ha

theorem movable_pingReturn {n : TypeRef} (h : n.Occurs pingReturn)
    (hNamed : baseScope.meaning? n ≠ none) : Movable baseScope docsScope n := by
  rcases occurs_pingReturn h hNamed with rfl | rfl
  · have hBare : pingReturn.bareName? = some "Result" := by decide +kernel
    refine ⟨?_, by simp [hBare], by simp [hBare]⟩
    rintro _ hName
    obtain rfl := Option.some.inj (hBare.symm.trans hName)
    decide +kernel
  · have hBare : apiError.bareName? = none := by decide +kernel
    have hInside : baseScope.startsOutside (Code.isGlobalPath apiError.path)
        (Code.pathSegments apiError.path) = false := by decide +kernel
    have hItem : baseScope.meaning? apiError = some (.inCrate ["base", "ApiError"]) := by
      decide +kernel
    refine ⟨by simp [hBare], by simp [hInside], fun _ rest hSelf => ?_⟩
    rw [hItem] at hSelf
    cases hSelf

theorem baseModule_spelled : ∀ x ∈ baseScope.modulePath, IsSegment x := by
  simpa [baseScope] using Source.isSegment_iff.mp (by decide)

theorem pingResult_spelled : Extraction.HasSpelling baseScope.imports true pingResult := by
  have hAll : (pingResult.parts.all (·.hasSpelling baseScope.imports true)) = true := by
    decide +kernel
  exact List.all_eq_true.mp hAll

theorem pingReturn_keepsMeaning : KeepsMeaning baseScope docsScope pingReturn :=
  (anchored_keepsMeaning baseScope docsScope (by decide) (by decide +kernel) baseModule_spelled
    (by decide +kernel) pingResult_spelled resolve_pingResult).1 fun _ => movable_pingReturn

/-- Where `Result` is imported from elsewhere, the return type of the base trait is another one. -/
theorem pingReturn_changesMeaning : ¬KeepsMeaning baseScope filesScope pingReturn := by
  rintro ⟨e, u, hParse, hResolved, hSame⟩
  have hResolves : baseScope.Resolves pingReturn :=
    Scope.resolves_of_resolve (by decide) (by decide +kernel) pingResult_spelled resolve_pingResult
  have hLegible : (pingReturn.anchored baseScope.modulePath baseScope.modules).Legible :=
    hResolves.spelled.anchored baseModule_spelled
  have hAnchored : pingReturn.anchored baseScope.modulePath baseScope.modules =
      ⟨"std::result::Result", writtenPath false ["Result"],
        [.unit, .named "ApiError" (writtenPath false ["crate", "base", "ApiError"])],
        false, false, none⟩ := rfl
  have hSegments : ∀ x ∈ ["Result", "crate", "base", "ApiError"], IsSegment x := fun x hx =>
    Source.isSegment_iff.mp (List.all_eq_true.mp (by decide) x hx)
  have hSettled : (pingReturn.anchored baseScope.modulePath baseScope.modules).Settled
      filesScope.imports := by
    rw [hAnchored]
    refine .path false (fun _ => rfl) (by decide) (by simp)
      (fun x hx => hSegments x (List.mem_append_left _ hx)) (by simp) ?_
    simp only [List.forall_mem_cons]
    refine ⟨.unit false fun _ => rfl, ?_, by simp⟩
    exact .path false (fun _ => rfl) (by decide) (by simp)
      (fun x hx => hSegments x (List.mem_cons_of_mem _ hx)) (by simp) (by simp)
  obtain ⟨e', hRead, hMeans⟩ := hLegible.parse
  obtain rfl := Option.some.inj (hRead.symm.trans hParse)
  obtain rfl := Except.ok.inj ((hMeans _ hSettled).symm.trans hResolved)
  rw [hAnchored] at hSame
  cases hSame with
  | mk hItem =>
    have hElsewhere : filesScope.meaning? (TypeRef.requalified filesScope.imports
        ⟨"std::result::Result", writtenPath false ["Result"],
          [.unit, .named "ApiError" (writtenPath false ["crate", "base", "ApiError"])],
          false, false, none⟩) = some (.outside ["std", "io", "Result"]) := by decide +kernel
    have hHere : baseScope.meaning? pingReturn = some (.outside ["std", "result", "Result"]) := by
      decide +kernel
    rw [hElsewhere, hHere] at hItem
    exact absurd hItem (by decide)

end TraitClient
