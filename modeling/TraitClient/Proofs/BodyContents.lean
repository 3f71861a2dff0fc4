import Mathlib.Data.List.Forall2
import TraitClient.Proofs.Verdict
import TraitClient.Service.BodyEncoding

/-!
# What a body encoding holds

The encoding of a valid method holds every parameter that goes into the body once, and nothing else.
The encoder looks at one kind of parameter in each of its branches; that the other kinds are absent
there is what the rules see to.
-/
namespace TraitClient.BodyEncoding

open Validation (AtMostOneBody BodyFitsVerb BodyStandsAlone MultipartFits FormFits HasBody HasPart
  HasField TakesBody OwnedForm)

/-! ## The contents of an encoding -/

def wholes : BodyEncoding → List String
  | .jsonObject parameter => [parameter]
  | .multipartForm parameter => [parameter]
  | _ => []

def fields : BodyEncoding → List FieldSpec
  | .jsonMap fields _ => fields
  | .formUrlEncoded fields _ => fields
  | _ => []

def maps : BodyEncoding → List MapSpec
  | .jsonMap _ maps => maps
  | .formUrlEncoded _ maps => maps
  | _ => []

def parts : BodyEncoding → List PartSpec
  | .multipartParts parts => parts
  | _ => []

def parameterNames (e : BodyEncoding) : List String :=
  e.wholes ++ e.fields.map (·.parameter) ++ e.maps.map (·.parameter) ++ e.parts.map (·.parameter)

/-! ## Parameters of the body -/

def isField (p : Parameter) : Bool :=
  match p.binding with
  | .field _ => true
  | _ => false

def isFieldMap (p : Parameter) : Bool :=
  match p.binding with
  | .fieldMap => true
  | _ => false

def goesIntoBody (p : Parameter) : Bool := p.isBody || isField p || isFieldMap p || p.isPart

structure FieldOf (p : Parameter) (s : FieldSpec) : Prop where
  key : p.binding = .field s.key
  parameter : s.parameter = p.name
  nullable : s.nullable = p.type.nullable

structure MapOf (p : Parameter) (s : MapSpec) : Prop where
  binding : p.binding = .fieldMap
  parameter : s.parameter = p.name
  nullable : s.nullable = p.type.nullable

structure PartOf (p : Parameter) (s : PartSpec) : Prop where
  key : p.binding = .part s.key
  parameter : s.parameter = p.name
  nullable : s.nullable = p.type.nullable

/-- An owned list of owned parts, an owned part, or a type with a text. -/
def TakenByForms (types : RuntimeTypes) (t : TypeRef) : Prop :=
  (t.byRef = false ∧ ∃ element, t.element? = some element ∧ types.isPart element = true ∧
    element.byRef = false) ∨
  (t.byRef = false ∧ types.isPart t = true) ∨ t.isScalar = true

/-- The encoding holds each parameter of the body once, every kind in the order of parameters. -/
structure Carries (m : Method) (e : BodyEncoding) : Prop where
  wholes : e.wholes = (m.parameters.filter (·.isBody)).map (·.name)
  fields : List.Forall₂ FieldOf (m.parameters.filter isField) e.fields
  maps : List.Forall₂ MapOf (m.parameters.filter isFieldMap) e.maps
  parts : List.Forall₂ PartOf (m.parameters.filter (·.isPart)) e.parts

/-! ## Fields and parts one after the other -/

theorem isField_iff {p : Parameter} : isField p = true ↔ ∃ key, p.binding = .field key := by
  unfold isField
  split <;> simp_all

theorem isFieldMap_iff {p : Parameter} : isFieldMap p = true ↔ p.binding = .fieldMap := by
  unfold isFieldMap
  split <;> simp_all

theorem forall₂_fieldSpec? (ps : List Parameter) :
    List.Forall₂ FieldOf (ps.filter isField) (ps.filterMap fieldSpec?) := by
  induction ps with
  | nil => exact .nil
  | cons p rest ih =>
    cases hBinding : p.binding with
    | field key =>
      have hSpec : fieldSpec? p = some ⟨key, p.name, p.type.nullable⟩ := by
        simp [fieldSpec?, hBinding]
      rw [List.filter_cons, if_pos (isField_iff.mpr ⟨key, hBinding⟩), List.filterMap_cons, hSpec]
      exact .cons ⟨hBinding, rfl, rfl⟩ ih
    | _ => simpa [isField, fieldSpec?, hBinding] using ih

theorem forall₂_mapSpec? (ps : List Parameter) :
    List.Forall₂ MapOf (ps.filter isFieldMap) (ps.filterMap mapSpec?) := by
  induction ps with
  | nil => exact .nil
  | cons p rest ih =>
    cases hBinding : p.binding with
    | fieldMap =>
      have hSpec : mapSpec? p = some ⟨p.name, p.type.nullable⟩ := by simp [mapSpec?, hBinding]
      rw [List.filter_cons, if_pos (isFieldMap_iff.mpr hBinding), List.filterMap_cons, hSpec]
      exact .cons ⟨hBinding, rfl, rfl⟩ ih
    | _ => simpa [isFieldMap, mapSpec?, hBinding] using ih

theorem partKind?_eq_none_iff {types : RuntimeTypes} {t : TypeRef} :
    partKind? types t = none ↔ ¬TakenByForms types t := by
  unfold partKind? TakenByForms
  cases t.element? <;> cases t.byRef <;> simp <;> grind

theorem partSpec_of_kind {types : RuntimeTypes} {interface : String} {m : Method} {p : Parameter}
    {kind : PartKind} {key : String} (hKind : partKind? types p.type = some kind)
    (hKey : p.binding = .part key) :
    partSpec interface m types p = .ok ⟨key, p.name, kind, p.type.nullable⟩ := by
  simp [partSpec, hKind, partKey, hKey]

/-- Parts are taken up to the first that no form takes. -/
theorem partSpecs_result (interface : String) (m : Method) (types : RuntimeTypes)
    (ps : List Parameter) (hParts : ∀ p ∈ ps, p.isPart = true) :
    (∃ specs, partSpecs interface m types ps = .ok specs ∧ List.Forall₂ PartOf ps specs) ∨
    ∃ before p after, ps = before ++ p :: after ∧ (∀ q ∈ before, TakenByForms types q.type) ∧
      ¬TakenByForms types p.type ∧
      partSpecs interface m types ps =
        .error (.unsupportedPart interface m.name p.name p.type.display) := by
  induction ps with
  | nil => exact Or.inl ⟨[], rfl, .nil⟩
  | cons p rest ih =>
    obtain ⟨hPart, hRest⟩ := List.forall_mem_cons.mp hParts
    obtain ⟨key, hKey⟩ := Validation.isPart_iff.mp hPart
    cases hKind : partKind? types p.type with
    | none =>
      refine Or.inr ⟨[], p, rest, rfl, by simp, partKind?_eq_none_iff.mp hKind, ?_⟩
      simp [partSpecs, partSpec, hKind, bind, Except.bind]
    | some kind =>
      have hTaken : TakenByForms types p.type := by
        by_contra hNot
        rw [partKind?_eq_none_iff.mpr hNot] at hKind
        cases hKind
      rw [partSpecs, partSpec_of_kind hKind hKey]
      rcases ih hRest with ⟨specs, hSpecs, hAll⟩ | ⟨before, q, after, rfl, hBefore, hNot, hError⟩
      · refine Or.inl ⟨⟨key, p.name, kind, p.type.nullable⟩ :: specs, ?_, ?_⟩
        · rw [hSpecs]
          rfl
        · exact .cons ⟨hKey, rfl, rfl⟩ hAll
      · refine Or.inr ⟨p :: before, q, after, rfl,
          List.forall_mem_cons.mpr ⟨hTaken, hBefore⟩, hNot, ?_⟩
        rw [hError]
        rfl

/-! ## Each parameter once -/

theorem map_eq_of_forall₂ {α β γ : Type} {R : α → β → Prop} {f : α → γ} {g : β → γ}
    (hR : ∀ a b, R a b → g b = f a) {as : List α} {bs : List β} (h : List.Forall₂ R as bs) :
    bs.map g = as.map f := by
  induction h with
  | nil => rfl
  | cons hHead _ ih => rw [List.map_cons, List.map_cons, hR _ _ hHead, ih]

theorem cons_perm_middle {α : Type} (a : α) {l front back : List α}
    (h : l.Perm (front ++ back)) : (a :: l).Perm (front ++ a :: back) :=
  (h.cons a).trans List.perm_middle.symm

theorem filter_goesIntoBody_perm (ps : List Parameter) :
    (ps.filter goesIntoBody).Perm (ps.filter (·.isBody) ++ (ps.filter isField ++
      (ps.filter isFieldMap ++ ps.filter (·.isPart)))) := by
  induction ps with
  | nil => exact .nil
  | cons p rest ih =>
    cases hBinding : p.binding with
    | body =>
      simpa [goesIntoBody, Parameter.isBody, isField, isFieldMap, Parameter.isPart, hBinding]
        using ih
    | field key =>
      simpa [goesIntoBody, Parameter.isBody, isField, isFieldMap, Parameter.isPart, hBinding]
        using cons_perm_middle p ih
    | fieldMap =>
      rw [← List.append_assoc] at ih
      simpa [goesIntoBody, Parameter.isBody, isField, isFieldMap, Parameter.isPart, hBinding]
        using cons_perm_middle p ih
    | part key =>
      rw [← List.append_assoc, ← List.append_assoc] at ih
      simpa [goesIntoBody, Parameter.isBody, isField, isFieldMap, Parameter.isPart, hBinding]
        using cons_perm_middle p ih
    | _ =>
      simpa [goesIntoBody, Parameter.isBody, isField, isFieldMap, Parameter.isPart, hBinding]
        using ih

theorem Carries.names_perm {m : Method} {e : BodyEncoding} (h : Carries m e) :
    e.parameterNames.Perm ((m.parameters.filter goesIntoBody).map (·.name)) := by
  have hFields := map_eq_of_forall₂ (fun p s (hOf : FieldOf p s) => hOf.parameter) h.fields
  have hMaps := map_eq_of_forall₂ (fun p s (hOf : MapOf p s) => hOf.parameter) h.maps
  have hParts := map_eq_of_forall₂ (fun p s (hOf : PartOf p s) => hOf.parameter) h.parts
  have hPerm := (filter_goesIntoBody_perm m.parameters).map (·.name)
  rw [parameterNames, h.wholes, hFields, hMaps, hParts]
  simpa [List.append_assoc] using hPerm.symm

theorem goesIntoBody_eq_false_iff {m : Method} :
    (∀ p ∈ m.parameters, goesIntoBody p = false) ↔ ¬HasBody m ∧ ¬HasField m ∧ ¬HasPart m := by
  have hKinds (p : Parameter) : goesIntoBody p = true ↔ p.binding = .body ∨
      ((∃ key, p.binding = .field key) ∨ p.binding = .fieldMap) ∨ ∃ key, p.binding = .part key := by
    simp only [goesIntoBody, Bool.or_eq_true, Validation.isBody_iff, isField_iff, isFieldMap_iff,
      Validation.isPart_iff, or_assoc]
  simp only [← Bool.not_eq_true, hKinds, HasBody, HasField, HasPart]
  constructor
  · intro h
    refine ⟨?_, ?_, ?_⟩
    · rintro ⟨p, hp, hBody⟩
      exact h p hp (Or.inl hBody)
    · rintro ⟨p, hp, hField⟩
      exact h p hp (Or.inr (Or.inl hField))
    · rintro ⟨p, hp, hPart⟩
      exact h p hp (Or.inr (Or.inr hPart))
  · rintro ⟨hBody, hField, hPart⟩ p hp (h | h | h)
    · exact hBody ⟨p, hp, h⟩
    · exact hField ⟨p, hp, h⟩
    · exact hPart ⟨p, hp, h⟩

/-! ## Encodings of valid methods -/

/-- An encoding that says all there is to say of a body. -/
structure Lossless (types : RuntimeTypes) (m : Method) (e : BodyEncoding) : Prop where
  carries : Carries m e
  once : e.parameterNames.Perm ((m.parameters.filter goesIntoBody).map (·.name))
  noBody_iff : e = .noBody ↔ (∀ p ∈ m.parameters, goesIntoBody p = false) ∧
    m.modifiers.multipart = false ∧ m.modifiers.formUrlEncoded = false
  parts_nonempty : ∀ specs, e = .multipartParts specs → specs ≠ []
  form_owned : ∀ name, e = .multipartForm name →
    ∃ body ∈ m.parameters, body.binding = .body ∧ body.name = name ∧ OwnedForm types body.type
  verb : m.verb = .get ∨ m.verb = .delete ∨ m.verb = .head ∨ m.verb = .options → e = .noBody

/-- A method is encoded without loss, or its first part that no form takes is reported. -/
def EncodedOrReported (types : RuntimeTypes) (interface : String) (m : Method) :
    Except GenerationError BodyEncoding → Prop
  | .ok e => Lossless types m e
  | .error err => m.modifiers.multipart = true ∧ ¬HasBody m ∧ TakesBody m.verb ∧
    ∃ before p after, m.parts = before ++ p :: after ∧
      (∀ q ∈ before, TakenByForms types q.type) ∧ ¬TakenByForms types p.type ∧
      err = .unsupportedPart interface m.name p.name p.type.display

/-- What the rules about bodies say of a valid method. -/
structure BodyRules (types : RuntimeTypes) (m : Method) : Prop where
  one : AtMostOneBody m
  verb : BodyFitsVerb m
  alone : BodyStandsAlone m
  multipart : MultipartFits types m
  form : FormFits m

theorem bodyRules_of_valid {types : RuntimeTypes} {m : Method}
    (h : Validation.fault? types m = none) : BodyRules types m := by
  have hKept := Validation.fault?_eq_none_iff.mp h
  exact ⟨hKept .bodyCardinality (by decide), hKept .bodyVerb (by decide),
    hKept .bodyFieldExclusive (by decide), hKept .multipartShape (by decide),
    hKept .formShape (by decide)⟩

theorem BodyRules.plain {types : RuntimeTypes} {m : Method} (h : BodyRules types m)
    (hVerb : ¬TakesBody m.verb) : (∀ p ∈ m.parameters, goesIntoBody p = false) ∧
      m.modifiers.multipart = false ∧ m.modifiers.formUrlEncoded = false := by
  have hMultipart : m.modifiers.multipart = false :=
    Bool.eq_false_iff.mpr fun hMark => hVerb (h.multipart.verb hMark)
  refine ⟨goesIntoBody_eq_false_iff.mpr ⟨?_, ?_, ?_⟩, hMultipart, ?_⟩
  · exact fun hBody => hVerb (h.verb (Or.inl hBody))
  · exact fun hField => hVerb (h.verb (Or.inr hField))
  · intro hPart
    have hMark := h.multipart.partsMarked hPart
    rw [hMultipart] at hMark
    cases hMark
  · exact Bool.eq_false_iff.mpr fun hForm => hVerb (h.form hForm).1

theorem BodyRules.lossless {types : RuntimeTypes} {m : Method} {e : BodyEncoding}
    (h : BodyRules types m) (hCarries : Carries m e)
    (hNoBody : e = .noBody ↔ (∀ p ∈ m.parameters, goesIntoBody p = false) ∧
      m.modifiers.multipart = false ∧ m.modifiers.formUrlEncoded = false)
    (hParts : ∀ specs, e = .multipartParts specs → specs ≠ [])
    (hForm : ∀ name, e = .multipartForm name → ∃ body ∈ m.parameters,
      body.binding = .body ∧ body.name = name ∧ OwnedForm types body.type) :
    Lossless types m e := by
  refine ⟨hCarries, hCarries.names_perm, hNoBody, hParts, hForm, fun hVerb => ?_⟩
  refine hNoBody.mpr (h.plain ?_)
  rintro (hPost | hPut | hPatch)
  · rw [hPost] at hVerb
    revert hVerb
    decide
  · rw [hPut] at hVerb
    revert hVerb
    decide
  · rw [hPatch] at hVerb
    revert hVerb
    decide

theorem filter_isBody_eq_nil {m : Method} (h : ¬HasBody m) :
    m.parameters.filter (·.isBody) = [] :=
  List.isEmpty_iff.mp (Validation.bodies_isEmpty_iff.mpr h)

theorem filter_isPart_eq_nil {m : Method} (h : ¬HasPart m) :
    m.parameters.filter (·.isPart) = [] :=
  List.isEmpty_iff.mp (Validation.parts_isEmpty_iff.mpr h)

theorem filter_isField_eq_nil {m : Method} (h : ¬HasField m) :
    m.parameters.filter isField = [] :=
  List.filter_eq_nil_iff.mpr fun p hp hField => h ⟨p, hp, Or.inl (isField_iff.mp hField)⟩

theorem filter_isFieldMap_eq_nil {m : Method} (h : ¬HasField m) :
    m.parameters.filter isFieldMap = [] :=
  List.filter_eq_nil_iff.mpr fun p hp hMap => h ⟨p, hp, Or.inr (isFieldMap_iff.mp hMap)⟩

theorem carries_body {m : Method} {e : BodyEncoding} {body : Parameter}
    (hBodies : m.bodies = [body]) (hNoField : ¬HasField m) (hNoPart : ¬HasPart m)
    (hWholes : e.wholes = [body.name]) (hFields : e.fields = []) (hMaps : e.maps = [])
    (hParts : e.parts = []) : Carries m e where
  wholes := by
    have hFilter : m.parameters.filter (·.isBody) = [body] := hBodies
    rw [hFilter, hWholes]
    rfl
  fields := by
    rw [filter_isField_eq_nil hNoField, hFields]
    exact .nil
  maps := by
    rw [filter_isFieldMap_eq_nil hNoField, hMaps]
    exact .nil
  parts := by
    rw [filter_isPart_eq_nil hNoPart, hParts]
    exact .nil

theorem carries_fields {m : Method} {e : BodyEncoding} (hNoBody : ¬HasBody m)
    (hNoPart : ¬HasPart m) (hWholes : e.wholes = [])
    (hFields : e.fields = m.parameters.filterMap fieldSpec?)
    (hMaps : e.maps = m.parameters.filterMap mapSpec?) (hParts : e.parts = []) : Carries m e where
  wholes := by
    rw [filter_isBody_eq_nil hNoBody, hWholes]
    rfl
  fields := hFields ▸ forall₂_fieldSpec? m.parameters
  maps := hMaps ▸ forall₂_mapSpec? m.parameters
  parts := by
    rw [filter_isPart_eq_nil hNoPart, hParts]
    exact .nil

theorem mem_bodies_singleton {m : Method} {body : Parameter} (h : m.bodies = [body]) :
    body ∈ m.parameters ∧ body.binding = .body := by
  have hMem : body ∈ m.bodies := h ▸ List.mem_singleton_self body
  exact ⟨List.mem_of_mem_filter hMem, Validation.isBody_iff.mp (List.mem_filter.mp hMem).2⟩

theorem fieldSpecs_nil_iff {m : Method} :
    m.parameters.filterMap fieldSpec? = [] ∧ m.parameters.filterMap mapSpec? = [] ↔
      ¬HasField m := by
  constructor
  · rintro ⟨hFields, hMaps⟩ ⟨p, hp, ⟨key, hKey⟩ | hMap⟩
    · have hNone := List.filterMap_eq_nil_iff.mp hFields p hp
      simp [fieldSpec?, hKey] at hNone
    · have hNone := List.filterMap_eq_nil_iff.mp hMaps p hp
      simp [mapSpec?, hMap] at hNone
  · intro h
    have hFields := forall₂_fieldSpec? m.parameters
    have hMaps := forall₂_mapSpec? m.parameters
    rw [filter_isField_eq_nil h, List.forall₂_nil_left_iff] at hFields
    rw [filter_isFieldMap_eq_nil h, List.forall₂_nil_left_iff] at hMaps
    exact ⟨hFields, hMaps⟩

/-! ## The branches of the encoder -/

theorem BodyRules.form_lossless {types : RuntimeTypes} {m : Method} {body : Parameter}
    (h : BodyRules types m) (hMark : m.modifiers.multipart = true) (hBodies : m.bodies = [body])
    (hNoPart : ¬HasPart m) (hOwned : OwnedForm types body.type) :
    Lossless types m (.multipartForm body.name) := by
  obtain ⟨hMem, hBinding⟩ := mem_bodies_singleton hBodies
  refine h.lossless (carries_body hBodies (h.multipart.noFields hMark) hNoPart rfl rfl rfl rfl)
    ?_ ?_ ?_
  · simp [hMark]
  · intro specs hEq
    cases hEq
  · intro name hEq
    cases hEq
    exact ⟨body, hMem, hBinding, rfl, hOwned⟩

theorem BodyRules.parts_lossless {types : RuntimeTypes} {m : Method} {specs : List PartSpec}
    (h : BodyRules types m) (hMark : m.modifiers.multipart = true) (hPart : HasPart m)
    (hNoBody : ¬HasBody m) (hSpecs : List.Forall₂ PartOf m.parts specs) :
    Lossless types m (.multipartParts specs) := by
  have hNoField := h.multipart.noFields hMark
  have hCarries : Carries m (.multipartParts specs) := by
    constructor
    · rw [filter_isBody_eq_nil hNoBody]
      rfl
    · rw [filter_isField_eq_nil hNoField]
      exact .nil
    · rw [filter_isFieldMap_eq_nil hNoField]
      exact .nil
    · exact hSpecs
  refine h.lossless hCarries ?_ ?_ ?_
  · simp [hMark]
  · intro specs' hEq hNil
    cases hEq
    rw [hNil, List.forall₂_nil_right_iff] at hSpecs
    exact Validation.parts_isEmpty_iff.mp (List.isEmpty_iff.mpr hSpecs) hPart
  · intro name hEq
    cases hEq

theorem BodyRules.object_lossless {types : RuntimeTypes} {m : Method} {body : Parameter}
    (h : BodyRules types m) (hNoPart : ¬HasPart m) (hBodies : m.bodies = [body]) :
    Lossless types m (.jsonObject body.name) := by
  obtain ⟨hMem, hBinding⟩ := mem_bodies_singleton hBodies
  have hBody : HasBody m := ⟨body, hMem, hBinding⟩
  have hNoField : ¬HasField m := fun hField => h.alone ⟨hBody, hField⟩
  refine h.lossless (carries_body hBodies hNoField hNoPart rfl rfl rfl rfl) ?_ ?_ ?_
  · constructor
    · intro hEq
      cases hEq
    · rintro ⟨hNone, _⟩
      exact absurd hBody (goesIntoBody_eq_false_iff.mp hNone).1
  · intro specs hEq
    cases hEq
  · intro name hEq
    cases hEq

theorem BodyRules.fields_lossless {types : RuntimeTypes} {m : Method} (h : BodyRules types m)
    (hMark : m.modifiers.multipart = false) (hNoPart : ¬HasPart m) (hNoBody : ¬HasBody m) :
    Lossless types m
      (if m.modifiers.formUrlEncoded then
        .formUrlEncoded (m.parameters.filterMap fieldSpec?) (m.parameters.filterMap mapSpec?)
      else if (m.parameters.filterMap fieldSpec?).isEmpty &&
          (m.parameters.filterMap mapSpec?).isEmpty then .noBody
      else .jsonMap (m.parameters.filterMap fieldSpec?) (m.parameters.filterMap mapSpec?)) := by
  split
  · rename_i hForm
    refine h.lossless (carries_fields hNoBody hNoPart rfl rfl rfl rfl) ?_ ?_ ?_
    · simp [hForm]
    · intro specs hEq
      cases hEq
    · intro name hEq
      cases hEq
  · rename_i hForm
    have hNoForm : m.modifiers.formUrlEncoded = false := Bool.eq_false_iff.mpr hForm
    split
    · rename_i hEmpty
      rw [Bool.and_eq_true, List.isEmpty_iff, List.isEmpty_iff] at hEmpty
      have hNoField := fieldSpecs_nil_iff.mp hEmpty
      refine h.lossless
        (carries_fields hNoBody hNoPart rfl hEmpty.1.symm hEmpty.2.symm rfl) ?_ ?_ ?_
      · exact ⟨fun _ => ⟨goesIntoBody_eq_false_iff.mpr ⟨hNoBody, hNoField, hNoPart⟩, hMark,
          hNoForm⟩, fun _ => rfl⟩
      · intro specs hEq
        cases hEq
      · intro name hEq
        cases hEq
    · rename_i hSome
      rw [Bool.and_eq_true, List.isEmpty_iff, List.isEmpty_iff, fieldSpecs_nil_iff,
        not_not] at hSome
      refine h.lossless (carries_fields hNoBody hNoPart rfl rfl rfl rfl) ?_ ?_ ?_
      · constructor
        · intro hEq
          cases hEq
        · rintro ⟨hNone, _⟩
          exact absurd hSome (goesIntoBody_eq_false_iff.mp hNone).2.1
      · intro specs hEq
        cases hEq
      · intro name hEq
        cases hEq

/-- Validation makes the encoding lossless. -/
theorem ofMethod_encodedOrReported (types : RuntimeTypes) (interface : String) (m : Method)
    (hValid : Validation.fault? types m = none) :
    EncodedOrReported types interface m (ofMethod interface types m) := by
  have hRules := bodyRules_of_valid hValid
  have hOne := (Validation.atMostOneBody_iff m).mp hRules.one
  cases hMark : m.modifiers.multipart
  · have hNoPart : ¬HasPart m := by
      intro hPart
      rw [hRules.multipart.partsMarked hPart] at hMark
      cases hMark
    cases hBodies : m.bodies with
    | nil =>
      have hNoBody := Validation.bodies_isEmpty_iff.mp (List.isEmpty_iff.mpr hBodies)
      simp only [ofMethod, hMark, hBodies]
      exact hRules.fields_lossless hMark hNoPart hNoBody
    | cons body others =>
      have hOthers : others = [] := by
        rw [hBodies, List.length_cons] at hOne
        exact List.length_eq_zero_iff.mp (by omega)
      subst hOthers
      simp only [ofMethod, hMark, hBodies]
      exact hRules.object_lossless hNoPart hBodies
  · rcases hRules.multipart.content hMark with ⟨hPart, hNoBody⟩ | ⟨hNoPart, body, hBodies, hOwned⟩
    · have hBodies : m.bodies = [] :=
        List.isEmpty_iff.mp (Validation.bodies_isEmpty_iff.mpr hNoBody)
      simp only [ofMethod, hMark, hBodies]
      rcases partSpecs_result interface m types m.parts
        (fun p hp => (List.mem_filter.mp hp).2) with ⟨specs, hSpecs, hAll⟩ | hReported
      · rw [hSpecs]
        exact hRules.parts_lossless hMark hPart hNoBody hAll
      · obtain ⟨before, p, after, hParts, hBefore, hNot, hError⟩ := hReported
        rw [hError]
        exact ⟨hMark, hNoBody, hRules.multipart.verb hMark, before, p, after, hParts, hBefore,
          hNot, rfl⟩
    · simp only [ofMethod, hMark, hBodies]
      exact hRules.form_lossless hMark hBodies hNoPart hOwned

/-- A multipart method with files, an optional caption and a page that is no part. -/
def uploadMethod : Method where
  name := "upload"
  declaredIn := "UploadApi"
  verb := .post
  template := "/files/{folder}"
  parameters :=
    [⟨"folder", .named "u64" "u64", .path "folder"⟩,
      ⟨"files", { TypeRef.named "std::vec::Vec" "Vec" with
        arguments := [.named "reqwest::multipart::Part" "Part"] }, .part "file"⟩,
      ⟨"page", .named "u32" "u32", .query "page"⟩,
      ⟨"caption", { TypeRef.named "std::string::String" "String" with nullable := true },
        .part "caption"⟩]
  returnType :=
    { TypeRef.named "std::result::Result" "Result" with
      arguments := [.unit, .named "ApiError" "ApiError"] }
  modifiers := { multipart := true }
  signature := ⟨true, true, false⟩

theorem uploadMethod_valid :
    Validation.fault? (.ofPath "crate::runtime") uploadMethod = none := by
  decide +kernel

theorem uploadMethod_encodedOrReported :
    Validation.fault? (.ofPath "crate::runtime") uploadMethod = none ∧
      ofMethod "UploadApi" (.ofPath "crate::runtime") uploadMethod = .ok (.multipartParts
        [⟨"file", "files", .list, false⟩, ⟨"caption", "caption", .scalar, true⟩]) ∧
      EncodedOrReported (.ofPath "crate::runtime") "UploadApi" uploadMethod
        (ofMethod "UploadApi" (.ofPath "crate::runtime") uploadMethod) :=
  ⟨uploadMethod_valid, rfl, ofMethod_encodedOrReported (.ofPath "crate::runtime") "UploadApi"
    uploadMethod uploadMethod_valid⟩

end TraitClient.BodyEncoding
