import TraitClient.Anchor
import TraitClient.Proofs.BodyContents
import TraitClient.Proofs.ForeignPaths

/-!
# Rules for inherited methods

Anchoring respells the types of an inherited method and keeps everything else.  The encoding depends
on no spelling.  Of the rules only those for the return type do: whether it is a `Result` is read off
its written path, and so is whether its success is a `str`.  Where the written and the full names
agree on that, a method is as valid where it is inherited as where it is declared.
-/
namespace TraitClient

variable {modulePath : List String} {modules : List (List String)}

/-! ## What anchoring keeps -/

namespace TypeRef

variable (t : TypeRef)

@[simp]
theorem anchored_qualifiedName : (t.anchored modulePath modules).qualifiedName = t.qualifiedName := by
  cases t
  rfl

@[simp]
theorem anchored_nullable : (t.anchored modulePath modules).nullable = t.nullable := by
  cases t
  rfl

@[simp]
theorem anchored_byRef : (t.anchored modulePath modules).byRef = t.byRef := by
  cases t
  rfl

@[simp]
theorem anchored_arguments : (t.anchored modulePath modules).arguments =
    t.arguments.map (·.anchored modulePath modules) := by
  cases t
  exact anchoredAll_eq modulePath modules _

@[simp]
theorem isList_anchored : (t.anchored modulePath modules).isList = t.isList := by
  simp [isList]

@[simp]
theorem isMap_anchored : (t.anchored modulePath modules).isMap = t.isMap := by
  simp [isMap]

@[simp]
theorem isText_anchored : (t.anchored modulePath modules).isText = t.isText := by
  simp [isText]

@[simp]
theorem isScalar_anchored : (t.anchored modulePath modules).isScalar = t.isScalar := by
  simp [isScalar]

theorem element?_anchored : (t.anchored modulePath modules).element? =
    t.element?.map (·.anchored modulePath modules) := by
  unfold element?
  rw [isList_anchored]
  split
  · rw [anchored_arguments, List.head?_map]
  · rfl

end TypeRef

namespace RuntimeTypes

variable (types : RuntimeTypes) (t : TypeRef)

@[simp]
theorem isForm_anchored : types.isForm (t.anchored modulePath modules) = types.isForm t := by
  simp [isForm]

@[simp]
theorem isPart_anchored : types.isPart (t.anchored modulePath modules) = types.isPart t := by
  simp [isPart]

end RuntimeTypes

def Parameter.anchored (p : Parameter) (modulePath : List String) (modules : List (List String)) :
    Parameter :=
  { p with type := p.type.anchored modulePath modules }

namespace Method

variable (m : Method)

theorem anchored_parameters : (m.anchored modulePath modules).parameters =
    m.parameters.map (·.anchored modulePath modules) := rfl

theorem filter_anchored {keep : Parameter → Bool}
    (hKeep : ∀ p : Parameter, keep (p.anchored modulePath modules) = keep p) :
    (m.anchored modulePath modules).parameters.filter keep =
      (m.parameters.filter keep).map (·.anchored modulePath modules) := by
  rw [anchored_parameters, List.filter_map]
  congr 2
  exact funext hKeep

theorem bodies_anchored : (m.anchored modulePath modules).bodies =
    m.bodies.map (·.anchored modulePath modules) := m.filter_anchored fun _ => rfl

theorem parts_anchored : (m.anchored modulePath modules).parts =
    m.parts.map (·.anchored modulePath modules) := m.filter_anchored fun _ => rfl

theorem formFields_anchored : (m.anchored modulePath modules).formFields =
    m.formFields.map (·.anchored modulePath modules) := m.filter_anchored fun _ => rfl

end Method

/-! ## Encodings -/

namespace BodyEncoding

/-- The same encoding, or the same unsupported part with its type spelled in one way or another. -/
inductive SameOutcome : Except GenerationError BodyEncoding → Except GenerationError BodyEncoding → Prop
  | encoded (e : BodyEncoding) : SameOutcome (.ok e) (.ok e)
  | unsupported (interface method parameter shown shown' : String) :
    SameOutcome (.error (.unsupportedPart interface method parameter shown))
      (.error (.unsupportedPart interface method parameter shown'))

variable (interface : String) (types : RuntimeTypes) (m : Method)

theorem partKind?_anchored (t : TypeRef) :
    partKind? types (t.anchored modulePath modules) = partKind? types t := by
  unfold partKind?
  rw [TypeRef.element?_anchored]
  cases t.element? <;> simp

theorem partKey_anchored (p : Parameter) :
    partKey (p.anchored modulePath modules) = partKey p := rfl

theorem partSpec_anchored (p : Parameter) :
    (∃ spec, partSpec interface m types p = .ok spec ∧
      partSpec interface (m.anchored modulePath modules) types (p.anchored modulePath modules) =
        .ok spec) ∨
    ∃ shown shown',
      partSpec interface m types p = .error (.unsupportedPart interface m.name p.name shown) ∧
      partSpec interface (m.anchored modulePath modules) types (p.anchored modulePath modules) =
        .error (.unsupportedPart interface m.name p.name shown') := by
  have hKind : partKind? types (p.anchored modulePath modules).type = partKind? types p.type :=
    partKind?_anchored types p.type
  unfold partSpec
  rw [hKind, partKey_anchored]
  cases partKind? types p.type with
  | none => exact .inr ⟨_, _, rfl, rfl⟩
  | some kind => exact .inl ⟨⟨partKey p, p.name, kind, p.type.nullable⟩, rfl, by simp [Parameter.anchored]⟩

theorem partSpecs_anchored (ps : List Parameter) :
    (∃ specs, partSpecs interface m types ps = .ok specs ∧
      partSpecs interface (m.anchored modulePath modules) types
        (ps.map (·.anchored modulePath modules)) = .ok specs) ∨
    ∃ name shown shown',
      partSpecs interface m types ps = .error (.unsupportedPart interface m.name name shown) ∧
      partSpecs interface (m.anchored modulePath modules) types
        (ps.map (·.anchored modulePath modules)) =
          .error (.unsupportedPart interface m.name name shown') := by
  induction ps with
  | nil => exact .inl ⟨[], rfl, rfl⟩
  | cons p ps ih =>
    rw [List.map_cons, partSpecs, partSpecs]
    rcases partSpec_anchored interface types m p with
      ⟨spec, hOwn, hAnchored⟩ | ⟨shown, shown', hOwn, hAnchored⟩
    · rw [hOwn, hAnchored]
      rcases ih with ⟨specs, hSpecs, hMore⟩ | ⟨name, shown, shown', hError, hMore⟩
      · rw [hSpecs, hMore]
        exact .inl ⟨spec :: specs, rfl, rfl⟩
      · rw [hError, hMore]
        exact .inr ⟨name, shown, shown', rfl, rfl⟩
    · rw [hOwn, hAnchored]
      exact .inr ⟨p.name, shown, shown', rfl, rfl⟩

theorem filterMap_anchored {β : Type} {spec? : Parameter → Option β}
    (h : ∀ p : Parameter, spec? (p.anchored modulePath modules) = spec? p) :
    (m.anchored modulePath modules).parameters.filterMap spec? = m.parameters.filterMap spec? := by
  rw [Method.anchored_parameters, List.filterMap_map]
  exact congrArg (List.filterMap · _) (funext h)

theorem fieldSpec?_anchored (p : Parameter) :
    fieldSpec? (p.anchored modulePath modules) = fieldSpec? p := by
  simp [fieldSpec?, Parameter.anchored]

theorem mapSpec?_anchored (p : Parameter) :
    mapSpec? (p.anchored modulePath modules) = mapSpec? p := by
  simp [mapSpec?, Parameter.anchored]

theorem ofMethod_anchored :
    SameOutcome (ofMethod interface types m) (ofMethod interface types (m.anchored modulePath modules)) := by
  have hModifiers : (m.anchored modulePath modules).modifiers = m.modifiers := rfl
  unfold ofMethod
  rw [hModifiers, Method.bodies_anchored]
  cases m.modifiers.multipart with
  | true =>
    cases m.bodies with
    | nil =>
      rw [List.map_nil, Method.parts_anchored]
      dsimp only
      rcases partSpecs_anchored interface types m m.parts with
        ⟨specs, hOwn, hAnchored⟩ | ⟨name, shown, shown', hOwn, hAnchored⟩
      · rw [hOwn, hAnchored]
        exact .encoded _
      · rw [hOwn, hAnchored]
        exact .unsupported _ _ _ _ _
    | cons body bodies => exact .encoded _
  | false =>
    cases m.bodies with
    | nil =>
      rw [List.map_nil]
      dsimp only
      rw [filterMap_anchored m fieldSpec?_anchored, filterMap_anchored m mapSpec?_anchored]
      exact .encoded _
    | cons body bodies => exact .encoded _

end BodyEncoding

/-! ## Rules that read no spelling -/

namespace Validation

def brokenRule? (types : RuntimeTypes) (m : Method) : Option Rule := (fault? types m).map (·.rule)

/-- The rules before that for the signature. -/
def earlyRules (types : RuntimeTypes) : List (Method → Option Fault) :=
  [pathPlaceholders, bodyCardinality, bodyVerb, bodyFieldExclusive, multipartShape types, formShape,
    fieldMapType]

def hasShape (m : Method) : Bool :=
  m.signature.isAsync && m.signature.hasRefSelf && !m.signature.hasGenerics

/-- The rule that is broken before the return type is looked at. -/
def earlyBrokenRule? (types : RuntimeTypes) (m : Method) : Option Rule :=
  ((earlyRules types).findSome? fun rule => (rule m).map (·.rule)).or
    (if hasShape m then none else some .signature)

def successBrokenRule? (textResponse : Bool) (success : TypeRef) : Option Rule :=
  if success.byRef then some .signature
  else if textResponse && !(success.isText && !success.nullable && success.path != "str") then
    some .textResponse
  else none

def returnBrokenRule? (m : Method) : Option Rule :=
  match m.successType? with
  | none => some .signature
  | some success => successBrokenRule? m.modifiers.textResponse success

variable (types : RuntimeTypes) (m : Method)

theorem map_rule_require (condition : Bool) (fault : Fault) :
    (require condition fault).map (·.rule) = if condition then none else some fault.rule := by
  cases condition <;> rfl

theorem returnRules_broken :
    ((signature m).map (·.rule)).or ((textResponse m).map (·.rule)) =
      (if hasShape m then none else some .signature).or (returnBrokenRule? m) := by
  unfold signature textResponse hasShape returnBrokenRule?
  cases m.signature.isAsync
  · rfl
  cases m.signature.hasRefSelf
  · rfl
  cases m.signature.hasGenerics
  · cases m.successType? with
    | none => rfl
    | some success =>
      have hOwned : (require (!success.byRef) (.borrowedSuccess success)).map (·.rule) =
          if success.byRef then some .signature else none := by
        rw [map_rule_require]
        cases success.byRef <;> rfl
      change ((require (!success.byRef) (.borrowedSuccess success)).map (·.rule)).or _ =
        successBrokenRule? m.modifiers.textResponse success
      rw [hOwned, successBrokenRule?]
      cases success.byRef
      · cases m.modifiers.textResponse
        · rfl
        · change ((require _ _).map (·.rule)) = ite _ _ _
          rw [map_rule_require]
          cases success.isText && !success.nullable && success.path != "str" <;> rfl
      · rfl
  · rfl

theorem brokenRule?_eq :
    brokenRule? types m = (earlyBrokenRule? types m).or (returnBrokenRule? m) := by
  have hRules : rules types = earlyRules types ++ [signature, textResponse] := rfl
  have hLast : ([signature, textResponse].findSome? fun rule => (rule m).map (·.rule)) =
      ((signature m).map (·.rule)).or ((textResponse m).map (·.rule)) := by
    rw [List.findSome?_cons, List.findSome?_cons, List.findSome?_nil]
    cases (signature m).map (·.rule) <;> cases (textResponse m).map (·.rule) <;> rfl
  rw [brokenRule?, fault?, List.map_findSome?, hRules, List.findSome?_append, earlyBrokenRule?,
    Option.or_assoc, ← returnRules_broken]
  exact congrArg _ hLast

theorem pathKeyFault?_anchored (seen : List String) (ps : List Parameter) :
    pathKeyFault? seen (ps.map (·.anchored modulePath modules)) = pathKeyFault? seen ps := by
  induction ps generalizing seen with
  | nil => rfl
  | cons p ps ih =>
    have hKey : (p.anchored modulePath modules).pathKey? = p.pathKey? := rfl
    have hNullable : (p.anchored modulePath modules).type.nullable = p.type.nullable := by
      simp [Parameter.anchored]
    rw [List.map_cons, pathKeyFault?, pathKeyFault?, hKey, hNullable]
    simp only [ih]
    rfl

theorem pathPlaceholders_anchored :
    pathPlaceholders (m.anchored modulePath modules) = pathPlaceholders m := by
  have hKeys : (m.anchored modulePath modules).parameters.filterMap (·.pathKey?) =
      m.parameters.filterMap (·.pathKey?) := BodyEncoding.filterMap_anchored m fun _ => rfl
  unfold pathPlaceholders
  rw [hKeys, Method.anchored_parameters, pathKeyFault?_anchored]
  rfl

theorem multipartShape_anchored :
    (multipartShape types (m.anchored modulePath modules)).map (·.rule) =
      (multipartShape types m).map (·.rule) := by
  have hModifiers : (m.anchored modulePath modules).modifiers = m.modifiers := rfl
  have hVerb : (m.anchored modulePath modules).verb = m.verb := rfl
  unfold multipartShape
  rw [hModifiers, hVerb, Method.parts_anchored, Method.bodies_anchored, Method.formFields_anchored,
    List.isEmpty_map, List.isEmpty_map]
  cases m.parts with
  | cons part parts => cases m.bodies <;> rfl
  | nil =>
    cases m.bodies with
    | nil => rfl
    | cons body bodies =>
      have hForm : types.isForm (body.anchored modulePath modules).type = types.isForm body.type :=
        types.isForm_anchored body.type
      have hNullable : (body.anchored modulePath modules).type.nullable = body.type.nullable :=
        body.type.anchored_nullable
      have hByRef : (body.anchored modulePath modules).type.byRef = body.type.byRef :=
        body.type.anchored_byRef
      simp only [List.map_nil, List.map_cons, hForm, hNullable, hByRef]
      -- The two may differ in how they show the type of the body.
      cases types.isForm body.type && !body.type.nullable && !body.type.byRef <;>
        split_ifs <;> rfl

theorem fieldMapType_anchored :
    (fieldMapType (m.anchored modulePath modules)).map (·.rule) = (fieldMapType m).map (·.rule) := by
  have hMap : ((fun p : Parameter => decide (p.binding = .fieldMap) && !p.type.isMap) ∘
      fun p : Parameter => p.anchored modulePath modules) =
        fun p : Parameter => decide (p.binding = .fieldMap) && !p.type.isMap := by
    funext p
    simp [Parameter.anchored]
  unfold fieldMapType
  rw [Method.anchored_parameters, List.find?_map, hMap, Option.map_map, Option.map_map,
    Option.map_map]
  rfl

theorem earlyRule_anchored {rule : Method → Option Fault} (h : rule ∈ earlyRules types) :
    (rule (m.anchored modulePath modules)).map (·.rule) = (rule m).map (·.rule) := by
  simp only [earlyRules, List.mem_cons, List.not_mem_nil, or_false] at h
  rcases h with rfl | rfl | rfl | rfl | rfl | rfl | rfl
  · rw [pathPlaceholders_anchored]
  · have hNames : (m.bodies.map (·.anchored modulePath modules)).map (·.name) =
        m.bodies.map (·.name) := List.map_map
    rw [bodyCardinality, bodyCardinality, Method.bodies_anchored, List.length_map, hNames]
  · have hKinds : (m.anchored modulePath modules).parameters.findSome? bodyBinding? =
        m.parameters.findSome? bodyBinding? := by
      rw [Method.anchored_parameters, List.findSome?_map]
      rfl
    rw [bodyVerb, bodyVerb, hKinds]
    rfl
  · rw [bodyFieldExclusive, bodyFieldExclusive, Method.bodies_anchored, Method.formFields_anchored,
      List.isEmpty_map, List.isEmpty_map]
  · exact multipartShape_anchored types m
  · rw [formShape, formShape, Method.bodies_anchored, List.isEmpty_map]
    rfl
  · exact fieldMapType_anchored m

theorem earlyBrokenRule?_anchored :
    earlyBrokenRule? types (m.anchored modulePath modules) = earlyBrokenRule? types m := by
  have hRules : ((earlyRules types).findSome? fun rule =>
        (rule (m.anchored modulePath modules)).map (·.rule)) =
      (earlyRules types).findSome? fun rule => (rule m).map (·.rule) := by
    have hEach := List.map_congr_left fun rule hRule =>
      @earlyRule_anchored modulePath modules types m rule hRule
    simpa [List.findSome?_map, Function.comp_def] using congrArg (List.findSome? id) hEach
  rw [earlyBrokenRule?, hRules]
  rfl

end Validation

/-! ## Names that end in the same way -/

theorem suffix_append_colon_iff {w : List Char} (hColon : ':' ∉ w) (a b : List Char) :
    w <:+ a ++ ':' :: b ↔ w <:+ b := by
  have hTail : b <:+ a ++ ':' :: b := ⟨a ++ [':'], by simp⟩
  refine ⟨fun hEnds => ?_, fun hEnds => hEnds.trans hTail⟩
  rcases List.suffix_or_suffix_of_suffix hEnds (List.suffix_append a (':' :: b)) with h | h
  · rcases List.suffix_cons_iff.mp h with rfl | h
    · exact absurd List.mem_cons_self hColon
    · exact h
  · exact absurd (h.subset List.mem_cons_self) hColon

def EndsInResult (path : String) : Prop := "Result".toList <:+ path.toList

theorem endsInResult_global_iff (path : String) : EndsInResult ("::" ++ path) ↔ EndsInResult path := by
  have hText : ("::" ++ path).toList = [':'] ++ ':' :: path.toList := by simp
  rw [EndsInResult, hText, suffix_append_colon_iff (by decide), EndsInResult]

theorem endsInResult_joinPath_iff {front back : List String} (hBack : back ≠ []) :
    EndsInResult (joinPath (front ++ back)) ↔ EndsInResult (joinPath back) := by
  induction front with
  | nil => rfl
  | cons a front ih =>
    cases hRest : front ++ back with
    | nil => exact absurd (List.append_eq_nil_iff.mp hRest).2 hBack
    | cons b rest =>
      rw [hRest] at ih
      have hText : (joinPath (a :: b :: rest)).toList =
          (a.toList ++ [':']) ++ ':' :: (joinPath (b :: rest)).toList := by
        rw [joinPath_cons_cons]
        simp
      rw [List.cons_append, hRest, EndsInResult, hText, suffix_append_colon_iff (by decide)]
      exact ih

/-- A full name that is more than a way up to a module. -/
def NamesItem (full : String) : Prop := ∃ s ∈ splitPath full, s ≠ "self" ∧ s ≠ "super"

theorem climb_rest (base path : List String) :
    ∃ way, path = way ++ (climb base path).2 ∧ ∀ s ∈ way, s = "self" ∨ s = "super" := by
  induction path generalizing base with
  | nil => exact ⟨[], rfl, by simp⟩
  | cons first rest ih =>
    rw [climb]
    split
    · rename_i hSelf
      obtain ⟨way, hRest, hWay⟩ := ih base
      exact ⟨first :: way, congrArg _ hRest,
        List.forall_mem_cons.mpr ⟨.inl (beq_iff_eq.mp hSelf), hWay⟩⟩
    · split
      · rename_i hSuper
        obtain ⟨way, hRest, hWay⟩ := ih base.dropLast
        exact ⟨first :: way, congrArg _ hRest,
          List.forall_mem_cons.mpr ⟨.inr (beq_iff_eq.mp hSuper), hWay⟩⟩
      · exact ⟨[], rfl, by simp⟩

theorem endsInResult_anchorPath_iff {full : String} (h : NamesItem full) :
    EndsInResult (anchorPath full modulePath modules) ↔ EndsInResult full := by
  obtain ⟨name, hName, hNotSelf, hNotSuper⟩ := h
  have hJoined := joinPath_splitPath full
  have hLocal {base back : List String} (hBack : back ≠ []) :
      EndsInResult (crateLocal base back) ↔ EndsInResult (joinPath back) :=
    endsInResult_joinPath_iff hBack
  have hAnchoring := anchorPath_anchoring full modulePath modules
  generalize splitPath full = segments at hName hJoined hAnchoring
  generalize anchorPath full modulePath modules = anchored at hAnchoring ⊢
  cases hAnchoring with
  | crate | builtIn => rfl
  | @climbs first rest =>
    obtain ⟨way, hPath, hWay⟩ := climb_rest modulePath (first :: rest)
    have hLeft : (climb modulePath (first :: rest)).2 ≠ [] := by
      intro hNil
      rw [hNil, List.append_nil] at hPath
      rcases hWay name (hPath ▸ hName) with hSame | hSame
      · exact hNotSelf hSame
      · exact hNotSuper hSame
    have hBelow : EndsInResult (joinPath (way ++ (climb modulePath (first :: rest)).2)) ↔ _ :=
      endsInResult_joinPath_iff hLeft
    rw [hLocal hLeft, ← hBelow, ← hPath, hJoined]
  | lone | child => rw [hLocal (List.cons_ne_nil _ _), hJoined]
  | foreign => exact endsInResult_global_iff full

theorem anchorPath_eq_str_iff {full : String} :
    anchorPath full modulePath modules = "str" ↔ full = "str" := by
  have hLocal (base rest : List String) : crateLocal base rest ≠ "str" := by
    intro hSame
    obtain ⟨s, hHead⟩ := crateLocal_head base rest
    rw [hSame] at hHead
    exact absurd (List.cons.inj hHead).1 (by decide)
  constructor
  · intro hAnchor
    have hAnchoring := anchorPath_anchoring full modulePath modules
    generalize splitPath full = segments at hAnchoring
    generalize anchorPath full modulePath modules = anchored at hAnchoring hAnchor
    cases hAnchoring with
    | crate | builtIn => exact hAnchor
    | climbs | lone | child => exact absurd hAnchor (hLocal _ _)
    | foreign =>
      have hText := congrArg String.toList hAnchor
      rw [String.toList_append] at hText
      exact absurd (List.cons.inj hText).1 (by decide)
  · rintro rfl
    rfl

/-! ## Inherited methods -/

theorem TypeRef.anchored_path (t : TypeRef) : (t.anchored modulePath modules).path = t.path ∨
    (t.anchored modulePath modules).path = anchorPath t.qualifiedName modulePath modules := by
  cases t
  rw [anchored]
  dsimp only
  split
  · exact .inl rfl
  · exact .inr rfl

/-- A method whose written and full return types read alike: as a result or none, and with a success
that is `str` or none. -/
structure Method.ReturnsByName (m : Method) : Prop where
  result : EndsInResult m.returnType.path ↔ EndsInResult m.returnType.qualifiedName
  item : NamesItem m.returnType.qualifiedName
  text : m.modifiers.textResponse = true → ∀ success, Validation.ResultOf m.returnType success →
    (success.path = "str" ↔ success.qualifiedName = "str")

namespace Validation

variable (types : RuntimeTypes) {m : Method}

theorem isResultLike_anchored (h : m.ReturnsByName) :
    (m.returnType.anchored modulePath modules).isResultLike = m.returnType.isResultLike := by
  have hEnds : EndsInResult (m.returnType.anchored modulePath modules).path ↔
      EndsInResult m.returnType.path := by
    rcases @TypeRef.anchored_path modulePath modules m.returnType with hPath | hPath
    · rw [hPath]
    · rw [hPath, endsInResult_anchorPath_iff h.item, h.result]
  rw [Bool.eq_iff_iff, isResultLike_iff, isResultLike_iff, TypeRef.anchored_nullable,
    TypeRef.anchored_arguments, ne_eq, List.map_eq_nil_iff]
  exact and_congr hEnds Iff.rfl

theorem successType?_anchored (h : m.ReturnsByName) :
    (m.anchored modulePath modules).successType? =
      m.successType?.map (·.anchored modulePath modules) := by
  have hType : (m.anchored modulePath modules).returnType =
      m.returnType.anchored modulePath modules := rfl
  unfold Method.successType?
  rw [hType, isResultLike_anchored h]
  split
  · rw [TypeRef.anchored_arguments, List.head?_map]
  · rfl

theorem successBrokenRule?_anchored {textResponse : Bool} {success : TypeRef}
    (h : textResponse = true → (success.path = "str" ↔ success.qualifiedName = "str")) :
    successBrokenRule? textResponse (success.anchored modulePath modules) =
      successBrokenRule? textResponse success := by
  unfold successBrokenRule?
  rw [TypeRef.anchored_byRef, TypeRef.isText_anchored, TypeRef.anchored_nullable]
  cases textResponse with
  | false => rfl
  | true =>
    have hStr : (success.anchored modulePath modules).path = "str" ↔ success.path = "str" := by
      rcases @TypeRef.anchored_path modulePath modules success with hPath | hPath
      · rw [hPath]
      · rw [hPath, anchorPath_eq_str_iff, h rfl]
    have hSame : ((success.anchored modulePath modules).path != "str") = (success.path != "str") := by
      rw [Bool.eq_iff_iff, bne_iff_ne, bne_iff_ne, ne_eq, hStr]
    rw [hSame]

theorem returnBrokenRule?_anchored (h : m.ReturnsByName) :
    returnBrokenRule? (m.anchored modulePath modules) = returnBrokenRule? m := by
  unfold returnBrokenRule?
  rw [successType?_anchored h]
  cases hSuccess : m.successType? with
  | none => rfl
  | some success =>
    exact successBrokenRule?_anchored fun hText =>
      h.text hText success (successType?_eq_some_iff.mp hSuccess)

/-- Inheriting a method keeps its encoding, and the rule that it breaks first unless that is for its
return type.  It keeps that one too if the written and the full return types read alike. -/
theorem inherited_asDeclared (interface : String) (types : RuntimeTypes) (m : Method)
    (modulePath : List String) (modules : List (List String)) :
    BodyEncoding.SameOutcome (BodyEncoding.ofMethod interface types m)
        (BodyEncoding.ofMethod interface types (m.anchored modulePath modules)) ∧
      (brokenRule? types (m.anchored modulePath modules) = brokenRule? types m ↔
        earlyBrokenRule? types m ≠ none ∨
          returnBrokenRule? (m.anchored modulePath modules) = returnBrokenRule? m) ∧
      (m.ReturnsByName →
        brokenRule? types (m.anchored modulePath modules) = brokenRule? types m) := by
  refine ⟨BodyEncoding.ofMethod_anchored interface types m, ?_, fun h => ?_⟩
  · rw [brokenRule?_eq, brokenRule?_eq, earlyBrokenRule?_anchored]
    cases earlyBrokenRule? types m <;> simp
  · rw [brokenRule?_eq, brokenRule?_eq, earlyBrokenRule?_anchored, returnBrokenRule?_anchored h]

def outcomeImports : Imports :=
  .ofItems [.use false (.path "crate" (.path "errors" (.group [.name "ApiError",
    .rename "Outcome" "ApiResult"])))]

def pingFunction : Source.TraitFunction where
  attributes := [⟨⟨false, ["api", "get"]⟩, .value (some "/ping")⟩]
  name := "ping"
  isAsync := true
  hasGenerics := false
  parameters := [.receiver true false]
  output := some (.path [] false [.mk "ApiResult"
    (.angle [.type .unit, .type (.path [] false [.mk "ApiError" .none])])])
  hasBody := false

def pingMethod (path qualifiedName : String) : Method where
  name := "ping"
  declaredIn := "crate::base::Base"
  verb := .get
  template := "/ping"
  parameters := []
  returnType :=
    { TypeRef.named qualifiedName path with
      arguments := [.unit, .named "crate::errors::ApiError" "ApiError"] }
  modifiers := {}
  signature := ⟨true, true, false⟩

theorem pingMethod_asDeclared :
    (pingMethod "Result" "std::result::Result").ReturnsByName ∧
      brokenRule? (.ofPath "runtime")
          ((pingMethod "Result" "std::result::Result").anchored ["base"] [["base"]]) =
        brokenRule? (.ofPath "runtime") (pingMethod "Result" "std::result::Result") := by
  have hReturns : (pingMethod "Result" "std::result::Result").ReturnsByName := by
    refine ⟨iff_of_true ?_ ?_, ⟨"std", by decide +kernel⟩, nofun⟩
    · exact ⟨[], rfl⟩
    · exact ⟨"std::result::".toList, by decide⟩
  exact ⟨hReturns, (inherited_asDeclared "DocsApi" (.ofPath "runtime")
    (pingMethod "Result" "std::result::Result") ["base"] [["base"]]).2.2 hReturns⟩

/-- A result by its local name alone is valid where it is declared and refused where it is
inherited. -/
theorem pingMethod_refusedAsInherited :
    Extraction.methodOf? (.ofNamespace "api") outcomeImports "crate::base::Base"
        pingFunction = .ok (some (pingMethod "ApiResult" "crate::errors::Outcome")) ∧
      brokenRule? (.ofPath "runtime") (pingMethod "ApiResult" "crate::errors::Outcome") = none ∧
      brokenRule? (.ofPath "runtime")
          ((pingMethod "ApiResult" "crate::errors::Outcome").anchored ["base"]
            [["base"], ["errors"]]) = some .signature := by
  refine ⟨?_, ?_, ?_⟩
  · rfl
  · decide +kernel
  · decide +kernel

end Validation
end TraitClient
