import TraitClient.Generation.Analysis
import TraitClient.Proofs.AttributePaths
import TraitClient.Proofs.InheritedVerdict
import TraitClient.Proofs.ServiceNames

/-!
# Names of runtime types

The types of a service have bare names, or those of `()` and slices.  So a runtime path that is not
bare is part of no name, and two runtimes that know the same types of a service judge and encode it
alike.
-/
namespace TraitClient

open Code (IsSegment)

/-! ## Bare names -/

theorem forall_dropLeadingColons {P : Char → Prop} (hColon : P ':') (s : List Char) :
    (∀ c ∈ dropLeadingColons s, P c) ↔ ∀ c ∈ s, P c := by
  fun_induction dropLeadingColons s with
  | case1 rest ih => simp [hColon, ih]
  | case2 => rfl

theorem isBare_withoutLeadingColons {path : String} :
    IsBare (withoutLeadingColons path) ↔ IsBare path := by
  rw [IsBare, withoutLeadingColons, String.toList_ofList]
  exact forall_dropLeadingColons (.inl rfl) _

theorem isBare_append {a b : String} : IsBare (a ++ b) ↔ IsBare a ∧ IsBare b := by
  rw [IsBare, String.toList_append, List.forall_mem_append]
  rfl

def IsTypeName (name : String) : Prop :=
  name = TypeRef.unitName ∨ name = TypeRef.sliceName ∨ IsBare name

theorem IsTypeName.isBare {name : String} (h : IsTypeName name) (hColon : ':' ∈ name.toList) :
    IsBare name := by
  rcases h with rfl | rfl | hBare
  · exact absurd hColon (by decide)
  · exact absurd hColon (by decide)
  · exact hBare

inductive TypeRef.PlainlyNamed : TypeRef → Prop
  | mk {t : TypeRef} (name : IsTypeName t.qualifiedName)
      (arguments : ∀ a ∈ t.arguments, a.PlainlyNamed) : t.PlainlyNamed

theorem TypeRef.PlainlyNamed.element {t e : TypeRef} (h : t.PlainlyNamed) (he : t.element? = some e) :
    e.PlainlyNamed := by
  obtain ⟨_, hArguments⟩ := h
  unfold element? at he
  split at he
  · exact hArguments e (List.mem_of_head? he)
  · cases he

theorem TypeRef.PlainlyNamed.anchored {t : TypeRef} (h : t.PlainlyNamed) (modulePath : List String)
    (modules : List (List String)) : (t.anchored modulePath modules).PlainlyNamed := by
  induction h with
  | mk hName _ ih =>
    refine .mk (by simpa using hName) ?_
    rw [TypeRef.anchored_arguments]
    exact List.forall_mem_map.mpr ih

namespace Imports

variable {imports : Imports}

theorem isTypeName_qualify (h : imports.Spelled) {leadingColon : Bool}
    {segments : List Source.TypeSegment}
    (hNamed : (Source.TypePart.path leadingColon segments).wellNamed = true) :
    IsTypeName (imports.qualify (segments.map (·.name)) leadingColon) := by
  have hEach := List.all_eq_true.mp (Bool.and_eq_true_iff.mp hNamed).2
  have hSegments : ∀ s ∈ segments.map (·.name), IsSegment s := by
    intro name hName
    obtain ⟨s, hs, rfl⟩ := List.mem_map.mp hName
    exact Source.isSegment_iff.mp (Bool.and_eq_true_iff.mp (hEach s hs)).1
  obtain ⟨full, hFull, hQualified⟩ := qualify_eq_joinPath h hSegments leadingColon
  rw [hQualified]
  exact .inr (.inr (isBare_joinPath fun s hs => (hFull s hs).token))

theorem Made.plainlyNamed {r : TypeRef} (hMade : Made imports (·.wellNamed = true) r)
    (h : imports.Spelled) : r.PlainlyNamed := by
  induction hMade with
  | unit => exact .mk (.inl rfl) (by simp [TypeRef.unit, TypeRef.named])
  | slice _ _ ih =>
    exact .mk (.inr (.inl rfl)) (by simpa [TypeRef.slice, TypeRef.borrowed] using ih)
  | reference _ _ _ ih | option _ _ ih =>
    obtain ⟨hName, hArguments⟩ := ih
    exact .mk hName hArguments
  | path hNamed _ _ _ _ ih => exact .mk (isTypeName_qualify h hNamed) ih

theorem resolve_plainlyNamed (h : imports.Spelled) {t : Source.TypeExpr} (ht : t.wellNamed = true)
    {r : TypeRef} (hr : imports.resolve t = .ok r) : r.PlainlyNamed :=
  (resolve_made t (List.all_eq_true.mp ht) hr).plainlyNamed h

end Imports

/-! ## Types of a service -/

namespace Extraction

theorem verbMethod?_plainlyNamed {c : Context} {e : TraitEntry} (he : e.WellNamed) {inherited : Bool}
    {declaredIn : String} {f : Source.TraitFunction} (hf : f ∈ e.declaration.functions) {m : Method}
    (h : verbMethod? c e inherited declaredIn f = some m) :
    ∀ p ∈ m.parameters, p.type.PlainlyNamed := by
  unfold verbMethod? at h
  split at h
  · rename_i m' hMethod
    have hNames := List.all_eq_true.mp (Bool.and_eq_true_iff.mp he.declaration).2 f hf
    have hTypes := List.all_eq_true.mp (Bool.and_eq_true_iff.mp hNames).2
    have hNamed : ∀ p ∈ m'.parameters, p.type.PlainlyNamed := by
      intro p hp
      obtain ⟨q, hq, _, t, ht, hResolved⟩ := parametersOf_declared (methodOf?_some hMethod).2.1 p hp
      have hWellNamed := hTypes t (List.mem_append_left _ (List.mem_filterMap.mpr ⟨q, hq, ht⟩))
      exact Imports.resolve_plainlyNamed he.imports hWellNamed hResolved
    cases h
    cases inherited with
    | false => exact hNamed
    | true => exact List.forall_mem_map.mpr fun p hp => (hNamed p hp).anchored _ _
  · cases h

theorem interfaceOf_plainlyNamed {c : Context} {e : TraitEntry} {i : Interface}
    (hIndex : ∀ t ∈ c.index.traits, t.WellNamed) (he : e ∈ c.index.traits)
    (h : (interfaceOf c e).result = .ok i) :
    ∀ m ∈ i.methods, ∀ p ∈ m.parameters, p.type.PlainlyNamed := by
  obtain ⟨_, order, hGathers, hListed, _⟩ := interfaceOf_gathers h
  intro m hm
  rw [hGathers.methods] at hm
  rcases List.mem_append.mp (firstByName_subset _ m hm) with hOwn | hInherited
  · obtain ⟨f, hf, hMethod⟩ := List.mem_filterMap.mp hOwn
    exact verbMethod?_plainlyNamed (hIndex e he) hf hMethod
  · obtain ⟨t, ht, hMember⟩ := List.mem_flatMap.mp hInherited
    obtain ⟨f, hf, hMethod⟩ := List.mem_filterMap.mp hMember
    exact verbMethod?_plainlyNamed (hIndex t (hListed t ht).mem) hf hMethod

end Extraction

/-! ## Types that two runtimes know -/

/-- Two runtimes take a type for the same. -/
structure RuntimeTypes.Agree (types types' : RuntimeTypes) (t : TypeRef) : Prop where
  form : types.isForm t = types'.isForm t
  part : types.isPart t = types'.isPart t
  element : ∀ e ∈ t.element?, types.isPart e = types'.isPart e

namespace RuntimeTypes

/-- Below a path that is not bare no type has its name. -/
theorem contains_spellings {path : String} (hPath : ¬IsBare path) (name : String) {type : String}
    (hType : IsTypeName type) : (spellings (withoutLeadingColons path) name).contains type =
      decide (type = "reqwest::multipart::" ++ name) := by
  have hBelow (rest : String) (hColon : ':' ∈ rest.toList) :
      type ≠ withoutLeadingColons path ++ rest ++ name := by
    rintro rfl
    have hBare := hType.isBare (by simp [hColon])
    exact hPath (isBare_withoutLeadingColons.mp (isBare_append.mp (isBare_append.mp hBare).1).1)
  have hShort := hBelow "::" (by decide)
  have hLong := hBelow "::reqwest::multipart::" (by decide)
  simp [spellings, hShort, hLong]

variable {path path' : String} {t : TypeRef}

theorem agree_of_not_bare (hPath : ¬IsBare path) (hPath' : ¬IsBare path') (h : t.PlainlyNamed) :
    Agree (ofPath path) (ofPath path') t := by
  have hPart {t : TypeRef} (h : t.PlainlyNamed) : (ofPath path).isPart t = (ofPath path').isPart t := by
    obtain ⟨hName, _⟩ := h
    exact (contains_spellings hPath _ hName).trans (contains_spellings hPath' _ hName).symm
  refine ⟨?_, hPart h, fun e he => hPart (h.element he)⟩
  obtain ⟨hName, _⟩ := h
  exact (contains_spellings hPath _ hName).trans (contains_spellings hPath' _ hName).symm

end RuntimeTypes

section Agreeing

variable {types types' : RuntimeTypes}

def Method.AgreedBy (types types' : RuntimeTypes) (m : Method) : Prop :=
  ∀ p ∈ m.parameters, types.Agree types' p.type

namespace Validation

theorem multipartShape_congr {m : Method} (h : m.AgreedBy types types') :
    multipartShape types m = multipartShape types' m := by
  have hBody : ∀ p ∈ m.bodies, types.isForm p.type = types'.isForm p.type := fun p hp =>
    (h p (List.mem_filter.mp hp).1).form
  unfold multipartShape
  cases hBodies : m.bodies with
  | nil => cases m.parts <;> rfl
  | cons body rest =>
    have hSame := hBody body (hBodies ▸ List.mem_cons_self)
    cases m.parts with
    | nil =>
      dsimp only
      rw [hSame]
    | cons => rfl

theorem fault?_congr {m : Method} (h : m.AgreedBy types types') : fault? types m = fault? types' m := by
  simp only [fault?, rules, List.findSome?_cons, multipartShape_congr h]

theorem violation?_congr {i : Interface} (h : ∀ m ∈ i.methods, m.AgreedBy types types') :
    violation? types i = violation? types' i := by
  unfold violation?
  generalize i.methods = methods at h
  induction methods with
  | nil => rfl
  | cons m methods ih =>
    obtain ⟨hFirst, hRest⟩ := List.forall_mem_cons.mp h
    rw [List.findSome?_cons, List.findSome?_cons, fault?_congr hFirst, ih hRest]

end Validation

namespace BodyEncoding

theorem partKind?_congr {t : TypeRef} (h : types.Agree types' t) :
    partKind? types t = partKind? types' t := by
  unfold partKind?
  rw [h.part]
  cases hElement : t.element? with
  | none => rfl
  | some e =>
    dsimp only
    rw [h.element e hElement]

theorem partSpecs_congr (interface : String) (m : Method) {ps : List Parameter}
    (h : ∀ p ∈ ps, types.Agree types' p.type) :
    partSpecs interface m types ps = partSpecs interface m types' ps := by
  induction ps with
  | nil => rfl
  | cons p ps ih =>
    obtain ⟨hFirst, hRest⟩ := List.forall_mem_cons.mp h
    rw [partSpecs, partSpecs, partSpec, partSpec, partKind?_congr hFirst, ih hRest]

theorem ofMethods_congr (interface : String) {methods : List Method}
    (h : ∀ m ∈ methods, m.AgreedBy types types') :
    ofMethods interface types methods = ofMethods interface types' methods := by
  induction methods with
  | nil => rfl
  | cons m methods ih =>
    obtain ⟨hFirst, hRest⟩ := List.forall_mem_cons.mp h
    have hParts : ∀ p ∈ m.parts, types.Agree types' p.type := fun p hp =>
      hFirst p (List.mem_filter.mp hp).1
    have hMethod : ofMethod interface types m = ofMethod interface types' m := by
      rw [ofMethod, ofMethod, partSpecs_congr interface m hParts]
    rw [ofMethods, ofMethods, hMethod, ih hRest]

end BodyEncoding

theorem Plan.ofInterface_congr {i : Interface} (h : ∀ m ∈ i.methods, m.AgreedBy types types') :
    Plan.ofInterface types i = Plan.ofInterface types' i := by
  rw [ofInterface, ofInterface, Validation.violation?_congr h, BodyEncoding.ofInterface,
    BodyEncoding.ofInterface, BodyEncoding.ofMethods_congr i.name h]

end Agreeing

end TraitClient
