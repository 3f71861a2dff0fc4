import TraitClient.Proofs.TemplateWords
import TraitClient.Service.Validation

/-!
# The rules as conditions on a method

Each rule is said once without the order in which its parts are looked at.  The rule functions are
shown to find a fault exactly where the condition fails; only the multipart rule relies on an
earlier one, since it looks at the first body alone.
-/
namespace TraitClient.Validation

/-! ## Conditions -/

def TakesBody (v : Verb) : Prop := v = .post ∨ v = .put ∨ v = .patch

def HasBody (m : Method) : Prop := ∃ p ∈ m.parameters, p.binding = .body

def HasPart (m : Method) : Prop := ∃ p ∈ m.parameters, ∃ key, p.binding = .part key

def HasField (m : Method) : Prop :=
  ∃ p ∈ m.parameters, (∃ key, p.binding = .field key) ∨ p.binding = .fieldMap

structure PathKeysMatch (m : Method) : Prop where
  distinct : m.parameters.Pairwise fun p q => ∀ key, p.binding = .path key → q.binding ≠ .path key
  required : ∀ p ∈ m.parameters, ∀ key, p.binding = .path key → p.type.nullable = false
  complete : ∀ key, (∃ p ∈ m.parameters, p.binding = .path key) ↔
    Template.Holds m.template.toList key.toList

def AtMostOneBody (m : Method) : Prop :=
  m.parameters.Pairwise fun p q => p.binding = .body → q.binding ≠ .body

def BodyFitsVerb (m : Method) : Prop := HasBody m ∨ HasField m → TakesBody m.verb

def BodyStandsAlone (m : Method) : Prop := ¬(HasBody m ∧ HasField m)

/-- A multipart form that can be moved into the request. -/
def OwnedForm (types : RuntimeTypes) (t : TypeRef) : Prop :=
  types.isForm t = true ∧ t.nullable = false ∧ t.byRef = false

structure MultipartFits (types : RuntimeTypes) (m : Method) : Prop where
  partsMarked : HasPart m → m.modifiers.multipart = true
  verb : m.modifiers.multipart = true → TakesBody m.verb
  notForm : m.modifiers.multipart = true → m.modifiers.formUrlEncoded = false
  noFields : m.modifiers.multipart = true → ¬HasField m
  content : m.modifiers.multipart = true → (HasPart m ∧ ¬HasBody m) ∨
    (¬HasPart m ∧ ∃ body, m.bodies = [body] ∧ OwnedForm types body.type)

def FormFits (m : Method) : Prop :=
  m.modifiers.formUrlEncoded = true → TakesBody m.verb ∧ ¬HasBody m

def FieldMapsAreMaps (m : Method) : Prop :=
  ∀ p ∈ m.parameters, p.binding = .fieldMap → p.type.isMap = true

/-- A type whose path ends in `Result`, with its first argument.  The last segment of a path ends as
the path does. -/
def ResultOf (t success : TypeRef) : Prop :=
  "Result".toList <:+ t.path.toList ∧ t.nullable = false ∧ t.arguments.head? = some success

structure SignatureFits (m : Method) : Prop where
  isAsync : m.signature.isAsync = true
  hasRefSelf : m.signature.hasRefSelf = true
  notGeneric : m.signature.hasGenerics = false
  owned : ∃ success, ResultOf m.returnType success ∧ success.byRef = false

/-- A text response succeeds with a type that counts as a `String`. -/
def TextFits (string : TypeRef → Prop) (m : Method) : Prop :=
  m.modifiers.textResponse = true →
    ∃ success, ResultOf m.returnType success ∧ success.nullable = false ∧ string success

/-- What a rule asks of a method, given which types count as a `String`. -/
def Kept (types : RuntimeTypes) (string : TypeRef → Prop) (m : Method) : Rule → Prop
  | .annotationShape => True
  | .pathPlaceholders => PathKeysMatch m
  | .bodyCardinality => AtMostOneBody m
  | .bodyVerb => BodyFitsVerb m
  | .bodyFieldExclusive => BodyStandsAlone m
  | .multipartShape => MultipartFits types m
  | .formShape => FormFits m
  | .fieldMapType => FieldMapsAreMaps m
  | .signature => SignatureFits m
  | .textResponse => TextFits string m

def ruleOrder : List Rule :=
  [.pathPlaceholders, .bodyCardinality, .bodyVerb, .bodyFieldExclusive, .multipartShape, .formShape,
    .fieldMapType, .signature, .textResponse]

/-! ## Types that count as a `String` -/

/-- `String` by the path that imports make of its name. -/
def IsString (t : TypeRef) : Prop :=
  t.qualifiedName = "std::string::String" ∨ t.qualifiedName = "alloc::string::String"

/-- What the text rule accepts: it tells `str` from `String` by the spelling. -/
def ReadsAsString (t : TypeRef) : Prop :=
  (IsString t ∨ t.qualifiedName = "str") ∧ t.path ≠ "str"

/-- The name `str` is written for `str` and never for `String`. -/
def PlainlySpelled (t : TypeRef) : Prop :=
  (IsString t → t.path ≠ "str") ∧ (t.qualifiedName = "str" → t.path = "str")

theorem not_isString_of_str {t : TypeRef} (h : t.qualifiedName = "str") : ¬IsString t := by
  rintro (hStd | hAlloc)
  · rw [h] at hStd
    exact absurd hStd (by decide)
  · rw [h] at hAlloc
    exact absurd hAlloc (by decide)

theorem readsAsString_iff_isString (t : TypeRef) :
    (ReadsAsString t ↔ IsString t) ↔ PlainlySpelled t := by
  constructor
  · intro h
    refine ⟨fun hString => (h.mpr hString).2, fun hStr => ?_⟩
    by_contra hPath
    exact not_isString_of_str hStr (h.mp ⟨Or.inr hStr, hPath⟩)
  · rintro ⟨hString, hStr⟩
    constructor
    · rintro ⟨hName | hName, hPath⟩
      · exact hName
      · exact absurd (hStr hName) hPath
    · exact fun h => ⟨Or.inl h, hString h⟩

/-! ## Parameters by binding -/

theorem takesBody_iff {v : Verb} : v.allowsBody = true ↔ TakesBody v := by
  cases v <;> simp [Verb.allowsBody, TakesBody]

theorem isBody_iff {p : Parameter} : p.isBody = true ↔ p.binding = .body := by
  unfold Parameter.isBody
  split <;> simp_all

theorem isPart_iff {p : Parameter} : p.isPart = true ↔ ∃ key, p.binding = .part key := by
  unfold Parameter.isPart
  split <;> simp_all

theorem isFormField_iff {p : Parameter} :
    p.isFormField = true ↔ (∃ key, p.binding = .field key) ∨ p.binding = .fieldMap := by
  unfold Parameter.isFormField
  split <;> simp_all

theorem pathKey?_eq_some_iff {p : Parameter} {key : String} :
    p.pathKey? = some key ↔ p.binding = .path key := by
  unfold Parameter.pathKey?
  split <;> simp_all

theorem bodies_isEmpty_iff {m : Method} : m.bodies.isEmpty = true ↔ ¬HasBody m := by
  simp [Method.bodies, HasBody, isBody_iff]

theorem parts_isEmpty_iff {m : Method} : m.parts.isEmpty = true ↔ ¬HasPart m := by
  simp [Method.parts, HasPart, ← isPart_iff]

theorem formFields_isEmpty_iff {m : Method} : m.formFields.isEmpty = true ↔ ¬HasField m := by
  simp [Method.formFields, HasField, ← isFormField_iff]

/-! ## What each rule function decides -/

/-- A rule finds no fault exactly where it is kept, and faults of its own alone. -/
structure Decides (kept : Prop) (r : Rule) (result : Option Fault) : Prop where
  none_iff : result = none ↔ kept
  rule_eq : ∀ fault, result = some fault → fault.rule = r

theorem require_eq_none_iff {condition : Bool} {fault : Fault} :
    require condition fault = none ↔ condition = true := by
  cases condition <;> simp [require]

theorem eq_of_require {condition : Bool} {fault found : Fault}
    (h : require condition fault = some found) : found = fault := by
  cases condition
  · exact (Option.some.inj h).symm
  · cases h

theorem insertSorted_ne_nil (name : String) (names : List String) :
    insertSorted name names ≠ [] := by
  unfold insertSorted
  split
  · simp
  · split
    · simp
    · split <;> simp

theorem sortedNames_isEmpty_iff {names : List String} :
    (sortedNames names).isEmpty = true ↔ names = [] := by
  cases names with
  | nil => simp [sortedNames]
  | cons name names => simp [sortedNames, insertSorted_ne_nil]

theorem pathKeyFault?_eq_none_iff (seen : List String) (ps : List Parameter) :
    pathKeyFault? seen ps = none ↔
      (∀ p ∈ ps, ∀ key, p.binding = .path key → key ∉ seen ∧ p.type.nullable = false) ∧
      ps.Pairwise fun p q => ∀ key, p.binding = .path key → q.binding ≠ .path key := by
  induction ps generalizing seen with
  | nil => simp [pathKeyFault?]
  | cons p rest ih =>
    rw [pathKeyFault?, List.pairwise_cons, List.forall_mem_cons]
    split
    · rename_i hKey
      have hNoKey : ∀ key, p.binding ≠ .path key := by
        intro key hBinding
        rw [pathKey?_eq_some_iff.mpr hBinding] at hKey
        cases hKey
      simp [ih, hNoKey]
    · rename_i key hKey
      rw [pathKey?_eq_some_iff] at hKey
      split
      · rename_i hSeen
        simp [hKey, List.contains_iff_mem.mp hSeen]
      · split
        · rename_i hNullable
          simp [hKey, hNullable]
        · rename_i hSeen hNullable
          rw [ih]
          simp only [hKey, Binding.path.injEq, forall_eq', List.mem_cons, not_or]
          constructor
          · rintro ⟨hRest, hPairs⟩
            refine ⟨⟨⟨by simpa using hSeen, by simpa using hNullable⟩, ?_⟩, ?_, hPairs⟩
            · exact fun q hq k hk => ⟨(hRest q hq k hk).1.2, (hRest q hq k hk).2⟩
            · exact fun q hq hk => (hRest q hq key hk).1.1 rfl
          · rintro ⟨⟨_, hRest⟩, hOthers, hPairs⟩
            refine ⟨fun q hq k hk => ⟨⟨?_, (hRest q hq k hk).1⟩, (hRest q hq k hk).2⟩, hPairs⟩
            rintro rfl
            exact hOthers q hq hk

theorem pathKeyFault?_rule {seen : List String} {ps : List Parameter} {fault : Fault}
    (h : pathKeyFault? seen ps = some fault) : fault.rule = .pathPlaceholders := by
  fun_induction pathKeyFault? seen ps with
  | case1 => cases h
  | case2 _ _ _ _ ih => exact ih h
  | case3 =>
    cases h
    rfl
  | case4 =>
    cases h
    rfl
  | case5 _ _ _ _ _ _ _ ih => exact ih h

theorem pathPlaceholders_eq_none_iff (m : Method) :
    pathPlaceholders m = none ↔ PathKeysMatch m := by
  have hKeys (key : String) : key ∈ m.parameters.filterMap (·.pathKey?) ↔
      ∃ p ∈ m.parameters, p.binding = .path key := by
    simp [List.mem_filterMap, pathKey?_eq_some_iff]
  have hComplete : (Template.placeholders m.template).filter
          (!(m.parameters.filterMap (·.pathKey?)).contains ·) = [] ∧
        (m.parameters.filterMap (·.pathKey?)).filter
          (!(Template.placeholders m.template).contains ·) = [] ↔
      ∀ key, (∃ p ∈ m.parameters, p.binding = .path key) ↔
        Template.Holds m.template.toList key.toList := by
    simp only [List.filter_eq_nil_iff, Bool.not_eq_true, Bool.not_eq_false',
      List.contains_iff_mem, hKeys, Template.mem_placeholders_iff]
    exact ⟨fun h key => ⟨h.2 key, h.1 key⟩,
      fun h => ⟨fun key => (h key).mpr, fun key => (h key).mp⟩⟩
  unfold pathPlaceholders
  split
  · rename_i fault hFault
    constructor
    · intro h
      cases h
    · intro h
      have hNone := (pathKeyFault?_eq_none_iff [] m.parameters).mpr
        ⟨fun p hp key hk => ⟨List.not_mem_nil, h.required p hp key hk⟩, h.distinct⟩
      rw [hFault] at hNone
      cases hNone
  · rename_i hNone
    obtain ⟨hEach, hPairs⟩ := (pathKeyFault?_eq_none_iff [] m.parameters).mp hNone
    have hMatch : PathKeysMatch m ↔ ∀ key, (∃ p ∈ m.parameters, p.binding = .path key) ↔
        Template.Holds m.template.toList key.toList :=
      ⟨fun h => h.complete, fun h => ⟨hPairs, fun p hp key hk => (hEach p hp key hk).2, h⟩⟩
    rw [hMatch, ← hComplete, ← sortedNames_isEmpty_iff, ← sortedNames_isEmpty_iff]
    simp only [Bool.not_eq_true']
    split
    · simp_all
    · split <;> simp_all

theorem pathPlaceholders_decides (m : Method) :
    Decides (PathKeysMatch m) .pathPlaceholders (pathPlaceholders m) := by
  refine ⟨pathPlaceholders_eq_none_iff m, fun fault h => ?_⟩
  unfold pathPlaceholders at h
  split at h
  · rename_i hFault
    cases h
    exact pathKeyFault?_rule hFault
  · simp only at h
    split at h
    · cases h
      rfl
    · split at h
      · cases h
        rfl
      · cases h

theorem pairwise_body_iff (ps : List Parameter) :
    ps.Pairwise (fun p q => p.binding = .body → q.binding ≠ .body) ↔
      (ps.filter (·.isBody)).length ≤ 1 := by
  induction ps with
  | nil => simp
  | cons p rest ih =>
    rw [List.pairwise_cons, ih]
    by_cases hp : p.binding = .body
    · rw [List.filter_cons, if_pos (isBody_iff.mpr hp), List.length_cons]
      constructor
      · rintro ⟨hOthers, _⟩
        have hNil : rest.filter (·.isBody) = [] := List.filter_eq_nil_iff.mpr fun q hq hBody =>
          hOthers q hq hp (isBody_iff.mp hBody)
        rw [hNil, List.length_nil]
      · intro h
        have hNil : rest.filter (·.isBody) = [] := List.length_eq_zero_iff.mp (by omega)
        rw [List.filter_eq_nil_iff] at hNil
        exact ⟨fun q hq _ hBody => hNil q hq (isBody_iff.mpr hBody), by omega⟩
    · rw [List.filter_cons, if_neg fun hBody => hp (isBody_iff.mp hBody)]
      simp [hp]

theorem atMostOneBody_iff (m : Method) : AtMostOneBody m ↔ m.bodies.length ≤ 1 :=
  pairwise_body_iff m.parameters

theorem bodyCardinality_decides (m : Method) :
    Decides (AtMostOneBody m) .bodyCardinality (bodyCardinality m) := by
  refine ⟨?_, fun fault h => ?_⟩
  · rw [bodyCardinality, require_eq_none_iff, atMostOneBody_iff, decide_eq_true_eq]
  · rw [eq_of_require h]
    rfl

theorem bodyBinding?_eq_none_iff {p : Parameter} :
    bodyBinding? p = none ↔
      p.binding ≠ .body ∧ ¬((∃ key, p.binding = .field key) ∨ p.binding = .fieldMap) := by
  unfold bodyBinding?
  split <;> simp_all

theorem bodyVerb_decides (m : Method) : Decides (BodyFitsVerb m) .bodyVerb (bodyVerb m) := by
  have hNone : m.parameters.findSome? bodyBinding? = none ↔ ¬(HasBody m ∨ HasField m) := by
    simp only [List.findSome?_eq_none_iff, bodyBinding?_eq_none_iff, HasBody, HasField]
    constructor
    · rintro h (⟨p, hp, hBody⟩ | ⟨p, hp, hField⟩)
      · exact (h p hp).1 hBody
      · exact (h p hp).2 hField
    · exact fun h p hp => ⟨fun hBody => h (Or.inl ⟨p, hp, hBody⟩),
        fun hField => h (Or.inr ⟨p, hp, hField⟩)⟩
  unfold bodyVerb
  split
  · rename_i hVerb
    exact ⟨⟨fun _ _ => takesBody_iff.mp hVerb, fun _ => rfl⟩, fun fault h => by cases h⟩
  · rename_i hVerb
    rw [takesBody_iff] at hVerb
    refine ⟨?_, fun fault h => ?_⟩
    · rw [Option.map_eq_none_iff, hNone, BodyFitsVerb]
      exact ⟨fun h hCarries => absurd hCarries h, fun h hCarries => hVerb (h hCarries)⟩
    · obtain ⟨kind, _, rfl⟩ := Option.map_eq_some_iff.mp h
      rfl

theorem bodyFieldExclusive_decides (m : Method) :
    Decides (BodyStandsAlone m) .bodyFieldExclusive (bodyFieldExclusive m) := by
  refine ⟨?_, fun fault h => ?_⟩
  · rw [bodyFieldExclusive, require_eq_none_iff, Bool.or_eq_true, bodies_isEmpty_iff,
      formFields_isEmpty_iff, BodyStandsAlone, not_and_or]
  · rw [eq_of_require h]
    rfl

theorem multipartShape_rule {types : RuntimeTypes} {m : Method} {fault : Fault}
    (h : multipartShape types m = some fault) : fault.rule = .multipartShape := by
  unfold multipartShape at h
  split at h
  · rw [eq_of_require h]
    rfl
  split at h
  · cases h
    rfl
  split at h
  · cases h
    rfl
  split at h
  · cases h
    rfl
  split at h
  · cases h
    rfl
  · cases h
    rfl
  · rw [eq_of_require h]
    rfl
  · cases h

theorem multipartContent_iff {types : RuntimeTypes} {m : Method} (hOne : AtMostOneBody m) :
    (match m.parts, m.bodies with
      | [], [] => some .multipartEmpty
      | _ :: _, _ :: _ => some .partsWithBody
      | [], body :: _ =>
        require (types.isForm body.type && !body.type.nullable && !body.type.byRef)
          (.multipartBodyType body.name body.type)
      | _ :: _, [] => none) = none ↔
      (HasPart m ∧ ¬HasBody m) ∨
        (¬HasPart m ∧ ∃ body, m.bodies = [body] ∧ OwnedForm types body.type) := by
  rw [atMostOneBody_iff] at hOne
  have hHasPart : HasPart m ↔ ¬m.parts.isEmpty = true := by rw [parts_isEmpty_iff, not_not]
  rw [hHasPart, not_not, ← bodies_isEmpty_iff]
  cases hParts : m.parts with
  | nil =>
    cases hBodies : m.bodies with
    | nil => simp
    | cons body others =>
      rw [hBodies, List.length_cons] at hOne
      have hNil : others = [] := List.length_eq_zero_iff.mp (by omega)
      subst hNil
      simp [require_eq_none_iff, OwnedForm, and_assoc]
  | cons part others =>
    cases hBodies : m.bodies with
    | nil => simp
    | cons body others => simp

theorem multipartShape_decides (types : RuntimeTypes) (m : Method) (hOne : AtMostOneBody m) :
    Decides (MultipartFits types m) .multipartShape (multipartShape types m) := by
  refine ⟨?_, fun fault h => multipartShape_rule h⟩
  unfold multipartShape
  cases hMark : m.modifiers.multipart
  · simp only [Bool.not_false, if_true, require_eq_none_iff, parts_isEmpty_iff]
    constructor
    · intro hParts
      constructor <;> simp [hMark, hParts]
    · intro h hPart
      have hMarked := h.partsMarked hPart
      rw [hMark] at hMarked
      cases hMarked
  · have hFits : MultipartFits types m ↔ TakesBody m.verb ∧ m.modifiers.formUrlEncoded = false ∧
        ¬HasField m ∧ ((HasPart m ∧ ¬HasBody m) ∨
          (¬HasPart m ∧ ∃ body, m.bodies = [body] ∧ OwnedForm types body.type)) :=
      ⟨fun h => ⟨h.verb hMark, h.notForm hMark, h.noFields hMark, h.content hMark⟩,
        fun ⟨hVerb, hForm, hFields, hContent⟩ => ⟨fun _ => hMark, fun _ => hVerb, fun _ => hForm,
          fun _ => hFields, fun _ => hContent⟩⟩
    rw [hFits, ← takesBody_iff, ← formFields_isEmpty_iff]
    cases m.verb.allowsBody
    · simp
    cases m.modifiers.formUrlEncoded
    · cases m.formFields.isEmpty
      · simp
      · simp only [Bool.not_true, Bool.false_eq_true, if_false, true_and]
        exact multipartContent_iff hOne
    · simp

theorem formShape_decides (m : Method) : Decides (FormFits m) .formShape (formShape m) := by
  refine ⟨?_, fun fault h => ?_⟩
  · unfold formShape FormFits
    rw [← takesBody_iff, ← bodies_isEmpty_iff]
    cases m.modifiers.formUrlEncoded <;> cases m.verb.allowsBody <;>
      simp [require_eq_none_iff]
  · unfold formShape at h
    split at h
    · cases h
    split at h
    · cases h
      rfl
    · rw [eq_of_require h]
      rfl

theorem fieldMapType_decides (m : Method) :
    Decides (FieldMapsAreMaps m) .fieldMapType (fieldMapType m) := by
  refine ⟨?_, fun fault h => ?_⟩
  · rw [fieldMapType, Option.map_eq_none_iff, List.find?_eq_none]
    simp [FieldMapsAreMaps]
  · obtain ⟨p, _, rfl⟩ := Option.map_eq_some_iff.mp h
    rfl

/-! ## Success types -/

/-- A text without colons ends the last segment of a path if it ends the path. -/
theorem prefix_lastSegmentReversed_iff {w : List Char} (hColon : ':' ∉ w) (s : List Char) :
    w <+: TypeRef.lastSegmentReversed s ↔ w <+: s := by
  induction s using TypeRef.lastSegmentReversed.induct generalizing w with
  | case1 tail =>
    rw [TypeRef.lastSegmentReversed]
    cases w with
    | nil => simp
    | cons c w =>
      have hc : c ≠ ':' := fun hEq => hColon (hEq ▸ List.mem_cons_self)
      simp [List.cons_prefix_cons, hc]
  | case2 c rest hNotSeparator ih =>
    rw [TypeRef.lastSegmentReversed]
    · cases w with
      | nil => simp
      | cons d w =>
        rw [List.cons_prefix_cons, List.cons_prefix_cons,
          ih fun hMem => hColon (List.mem_cons_of_mem d hMem)]
    · exact hNotSeparator
  | case3 => rw [TypeRef.lastSegmentReversed]

theorem isResultLike_iff {t : TypeRef} :
    t.isResultLike = true ↔
      "Result".toList <:+ t.path.toList ∧ t.nullable = false ∧ t.arguments ≠ [] := by
  have hEnds : "Result".toList.reverse.isPrefixOf
        (TypeRef.lastSegmentReversed t.path.toList.reverse) = true ↔
      "Result".toList <:+ t.path.toList := by
    rw [List.isPrefixOf_iff_prefix, prefix_lastSegmentReversed_iff (by decide),
      List.reverse_prefix]
  simp only [TypeRef.isResultLike, Bool.and_eq_true, hEnds, Bool.not_eq_true',
    List.isEmpty_eq_false_iff]
  tauto

theorem successType?_eq_some_iff {m : Method} {success : TypeRef} :
    m.successType? = some success ↔ ResultOf m.returnType success := by
  unfold Method.successType? ResultOf
  split
  · rename_i hLike
    obtain ⟨hPath, hNullable, _⟩ := isResultLike_iff.mp hLike
    simp only [hPath, hNullable, true_and]
  · rename_i hLike
    constructor
    · intro h
      cases h
    · rintro ⟨hPath, hNullable, hHead⟩
      have hArguments : m.returnType.arguments ≠ [] := by
        intro hNil
        rw [hNil] at hHead
        cases hHead
      exact absurd (isResultLike_iff.mpr ⟨hPath, hNullable, hArguments⟩) hLike

theorem signature_rule {m : Method} {fault : Fault} (h : signature m = some fault) :
    fault.rule = .signature := by
  unfold signature at h
  split at h
  · cases h
    rfl
  split at h
  · cases h
    rfl
  split at h
  · cases h
    rfl
  split at h
  · cases h
    rfl
  · rw [eq_of_require h]
    rfl

theorem signature_decides (m : Method) : Decides (SignatureFits m) .signature (signature m) := by
  refine ⟨?_, fun fault h => signature_rule h⟩
  have hFits : SignatureFits m ↔ m.signature.isAsync = true ∧ m.signature.hasRefSelf = true ∧
      m.signature.hasGenerics = false ∧
      ∃ success, m.successType? = some success ∧ success.byRef = false := by
    simp only [successType?_eq_some_iff]
    exact ⟨fun h => ⟨h.isAsync, h.hasRefSelf, h.notGeneric, h.owned⟩,
      fun ⟨hAsync, hSelf, hGenerics, hOwned⟩ => ⟨hAsync, hSelf, hGenerics, hOwned⟩⟩
  rw [hFits]
  unfold signature
  cases m.signature.isAsync
  · simp
  cases m.signature.hasRefSelf
  · simp
  cases m.signature.hasGenerics
  · cases m.successType? with
    | none => simp
    | some success => simp [require_eq_none_iff]
  · simp

theorem isText_iff {t : TypeRef} :
    t.isText = true ↔ IsString t ∨ t.qualifiedName = "str" := by
  simp [TypeRef.isText, TypeRef.textNames, IsString, or_assoc]

theorem textResponse_decides (m : Method) :
    Decides (TextFits ReadsAsString m) .textResponse (textResponse m) := by
  refine ⟨?_, fun fault h => ?_⟩
  · unfold textResponse TextFits
    simp only [← successType?_eq_some_iff]
    cases m.modifiers.textResponse
    · simp
    cases m.successType? with
    | none => simp
    | some success =>
      simp [require_eq_none_iff, ReadsAsString, isText_iff]
      tauto
  · unfold textResponse at h
    split at h
    · cases h
    split at h
    · rw [eq_of_require h]
      rfl
    · cases h
      rfl

end TraitClient.Validation
