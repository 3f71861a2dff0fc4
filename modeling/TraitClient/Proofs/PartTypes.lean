import TraitClient.Emission.MethodBody
import TraitClient.Proofs.BodyContents
import TraitClient.Proofs.LocalNames

/-!
# Types of multipart parts

A part goes into the form by a statement that its kind picks, and what the statement hands to the
form has a type.  The kind of a parameter fits its type unless the parameter is an owned list of
optional parts: that is taken for a list of parts.
-/
namespace TraitClient

/-! ## Types of values -/

namespace Code

/-- The types of values that statements about forms tell from each other.  `text` is a text that a
form can hold, `shown` the type of what has one. -/
inductive ValueType
  | form
  | part
  | text
  | shown
  | list (element : ValueType)
  | option (content : ValueType)
  | reference (target : ValueType)
  | iterator (item : ValueType)
  | other
  deriving Repr, DecidableEq

namespace ValueType

/-- What a loop over a value goes through: behind a reference it borrows. -/
def items? : ValueType → Option ValueType
  | .list element => some element
  | .option content => some content
  | .iterator item => some item
  | .reference (.list element) => some (.reference element)
  | .reference (.option content) => some (.reference content)
  | _ => none

/-- What `Some(x)` binds in a value.  Behind a reference it borrows. -/
def content? : ValueType → Option ValueType
  | .option content => some content
  | .reference (.option content) => some (.reference content)
  | _ => none

def hasText : ValueType → Bool
  | .text => true
  | .shown => true
  | .reference target => target.hasText
  | _ => false

def method? (target : ValueType) (name : String) (arguments : List ValueType) : Option ValueType :=
  match name, arguments with
  | "to_string", [] => if target.hasText then some .text else none
  | "into_iter", [] => target.items?.map .iterator
  | "flatten", [] =>
    match target with
    | .iterator item => item.items?.map .iterator
    | _ => none
  | "part", [.text, .part] => if target = .form then some .form else none
  | "text", [.text, .text] => if target = .form then some .form else none
  | _, _ => none

end ValueType

/-- The types of the variables in scope, by their identifiers. -/
abbrev TypeScope := String → Option ValueType

namespace TypeScope

def lookup? (scope : TypeScope) (name : String) : Option ValueType := scope (identifier name)

def bind (scope : TypeScope) (name : String) (t : ValueType) : TypeScope :=
  fun other => if other = identifier name then some t else scope other

end TypeScope

mutual

def Expr.valueType? (scope : TypeScope) : Expr → Option ValueType
  | .var name => scope.lookup? name
  | .string _ => some .text
  | .borrow target => (target.valueType? scope).map .reference
  | .method receiver name arguments => do
    let target ← receiver.valueType? scope
    let types ← Expr.valueTypes? scope arguments
    target.method? name types
  | _ => none

def Expr.valueTypes? (scope : TypeScope) : List Expr → Option (List ValueType)
  | [] => some []
  | e :: rest => do
    let first ← e.valueType? scope
    let others ← Expr.valueTypes? scope rest
    some (first :: others)

end

mutual

/-- A statement that fills a form, in which every value has the type that is asked of it. -/
def Statement.WellTyped (scope : TypeScope) : Statement → Prop
  | .assign name value => ∃ t, scope.lookup? name = some t ∧ value.valueType? scope = some t
  | .forEach bound source body =>
    ∃ t, (source.valueType? scope).bind (·.items?) = some t ∧
      Statement.AllWellTyped (scope.bind bound t) body
  | .ifSome bound source body =>
    ∃ t, (source.valueType? scope).bind (·.content?) = some t ∧
      Statement.AllWellTyped (scope.bind bound t) body
  | _ => False

def Statement.AllWellTyped (scope : TypeScope) : List Statement → Prop
  | [] => True
  | st :: rest => st.WellTyped scope ∧ Statement.AllWellTyped scope rest

end

end Code

/-! ## Types of parameters -/

namespace TypeRef

open Code (ValueType)

mutual

def valueType (types : RuntimeTypes) : TypeRef → ValueType
  | ⟨qualifiedName, _, arguments, nullable, byRef, _⟩ =>
    let plain :=
      if listNames.contains qualifiedName && arguments.length == 1 then
        match valueTypes types arguments with
        | [element] => .list element
        | _ => .other
      else if types.parts.contains qualifiedName then .part
      else if textNames.contains qualifiedName || scalarNames.contains qualifiedName then .shown
      else .other
    let owned := if byRef then .reference plain else plain
    if nullable then .option owned else owned

def valueTypes (types : RuntimeTypes) : List TypeRef → List ValueType
  | [] => []
  | t :: ts => t.valueType types :: valueTypes types ts

end

def plainType (types : RuntimeTypes) (t : TypeRef) : ValueType :=
  match t.element? with
  | some element => .list (element.valueType types)
  | none => if types.isPart t then .part else if t.isScalar then .shown else .other

def presentType (types : RuntimeTypes) (t : TypeRef) : ValueType :=
  if t.byRef then .reference (t.plainType types) else t.plainType types

theorem valueType_eq (types : RuntimeTypes) (t : TypeRef) : t.valueType types =
    if t.nullable then .option (t.presentType types) else t.presentType types := by
  obtain ⟨qualifiedName, path, arguments, nullable, byRef, lifetime⟩ := t
  rw [valueType, presentType, plainType, element?, isList]
  match arguments with
  | [] => simp [isScalar, isText, RuntimeTypes.isPart]
  | [element] =>
    by_cases hList : qualifiedName ∈ listNames <;>
      simp [hList, valueTypes, isScalar, isText, RuntimeTypes.isPart]
  | _ :: _ :: _ => simp [isScalar, isText, RuntimeTypes.isPart]

end TypeRef

/-! ## Kinds of parts -/

namespace RuntimeTypes

variable {path : String} {t : TypeRef}

theorem part_suffix (h : (ofPath path).isPart t = true) :
    "Part".toList <:+ t.qualifiedName.toList := by
  have hName : t.qualifiedName ∈ spellings (withoutLeadingColons path) "Part" :=
    List.contains_iff_mem.mp h
  simp only [spellings, List.mem_cons, List.not_mem_nil, or_false] at hName
  rcases hName with hName | hName | hName <;> rw [hName, String.toList_append] <;>
    exact List.suffix_append _ _

theorem isList_eq_false (h : (ofPath path).isPart t = true) : t.isList = false := by
  have hNames : ∀ name ∈ TypeRef.listNames, ¬"Part".toList <:+ name.toList := by decide +kernel
  refine Bool.eq_false_iff.mpr fun hList => ?_
  have hName := (Bool.and_eq_true_iff.mp hList).1
  exact hNames _ (List.contains_iff_mem.mp hName) (part_suffix h)

theorem isScalar_eq_false (h : (ofPath path).isPart t = true) : t.isScalar = false := by
  have hNames : ∀ name ∈ TypeRef.textNames ++ TypeRef.scalarNames,
      ¬"Part".toList <:+ name.toList := by decide +kernel
  refine Bool.eq_false_iff.mpr fun hScalar => hNames _ ?_ (part_suffix h)
  simpa [TypeRef.isScalar, TypeRef.isText] using hScalar

end RuntimeTypes

theorem TypeRef.isList_of_isScalar {t : TypeRef} (h : t.isScalar = true) : t.isList = false := by
  have hNames : ∀ name ∈ textNames ++ scalarNames, name ∉ listNames := by decide +kernel
  have hName : t.qualifiedName ∈ textNames ++ scalarNames := by simpa [isScalar, isText] using h
  refine Bool.eq_false_iff.mpr fun hList => hNames _ hName ?_
  exact List.contains_iff_mem.mp (Bool.and_eq_true_iff.mp hList).1

theorem TypeRef.element?_eq_none {t : TypeRef} (h : t.isList = false) : t.element? = none := by
  rw [element?, h]
  rfl

namespace BodyEncoding

open Code (ValueType)

/-- The types whose values a part of a kind stands for.  The type itself may be optional. -/
def FitsKind (types : RuntimeTypes) (t : TypeRef) : PartKind → Prop
  | .list => t.byRef = false ∧ ∃ element, t.element? = some element ∧
      types.isPart element = true ∧ element.byRef = false ∧ element.nullable = false
  | .raw => t.byRef = false ∧ types.isPart t = true
  | .scalar => t.isScalar = true

/-- An owned list of owned optional parts. -/
def OptionalParts (types : RuntimeTypes) (t : TypeRef) : Prop :=
  t.byRef = false ∧ ∃ element, t.element? = some element ∧ types.isPart element = true ∧
    element.byRef = false ∧ element.nullable = true

variable {path : String} {t : TypeRef}

/-- The kind of a type is the one that it fits, optional parts apart. -/
theorem partKind?_eq_some_iff {kind : PartKind} : partKind? (.ofPath path) t = some kind ↔
    FitsKind (.ofPath path) t kind ∨ kind = .list ∧ OptionalParts (.ofPath path) t := by
  unfold partKind?
  cases hPart : (RuntimeTypes.ofPath path).isPart t with
  | true =>
    have hNone := TypeRef.element?_eq_none (RuntimeTypes.isList_eq_false hPart)
    have hScalar := RuntimeTypes.isScalar_eq_false hPart
    cases hByRef : t.byRef <;> cases kind <;>
      simp [FitsKind, OptionalParts, hNone, hScalar, hPart, hByRef]
  | false =>
    cases hScalar : t.isScalar with
    | true =>
      have hNone := TypeRef.element?_eq_none (TypeRef.isList_of_isScalar hScalar)
      cases kind <;> simp [FitsKind, OptionalParts, hNone, hScalar, hPart]
    | false =>
      cases hSome : t.element? with
      | none => cases kind <;> simp [FitsKind, OptionalParts, hSome, hScalar, hPart]
      | some element =>
        cases hNullable : element.nullable <;> cases kind <;>
          simp [FitsKind, OptionalParts, hSome, hScalar, hPart, hNullable]

theorem presentType_eq_part_iff : t.presentType (.ofPath path) = .part ↔
    FitsKind (.ofPath path) t .raw := by
  cases hPart : (RuntimeTypes.ofPath path).isPart t with
  | true =>
    have hNone := TypeRef.element?_eq_none (RuntimeTypes.isList_eq_false hPart)
    cases hByRef : t.byRef <;>
      simp [TypeRef.presentType, TypeRef.plainType, FitsKind, hNone, hPart, hByRef]
  | false =>
    cases hByRef : t.byRef <;> cases hSome : t.element? <;> cases hScalar : t.isScalar <;>
      simp [TypeRef.presentType, TypeRef.plainType, FitsKind, hPart, hByRef, hSome, hScalar]

theorem valueType_eq_part_iff : t.valueType (.ofPath path) = .part ↔
    t.nullable = false ∧ FitsKind (.ofPath path) t .raw := by
  rw [TypeRef.valueType_eq, ← presentType_eq_part_iff]
  cases t.nullable <;> simp

theorem items?_presentType_iff : (t.presentType (.ofPath path)).items? = some .part ↔
    FitsKind (.ofPath path) t .list := by
  have hElement (element : TypeRef) := @valueType_eq_part_iff path element
  cases hSome : t.element? with
  | none =>
    cases hByRef : t.byRef <;> cases hPart : (RuntimeTypes.ofPath path).isPart t <;>
      cases hScalar : t.isScalar <;>
      simp [TypeRef.presentType, TypeRef.plainType, ValueType.items?, FitsKind, hSome, hByRef,
        hPart, hScalar]
  | some element =>
    cases hByRef : t.byRef with
    | true =>
      simp [TypeRef.presentType, TypeRef.plainType, ValueType.items?, FitsKind, hSome, hByRef]
    | false =>
      simp only [TypeRef.presentType, TypeRef.plainType, ValueType.items?, hSome, hByRef,
        Bool.false_eq_true, if_false, Option.some.injEq, hElement, FitsKind]
      grind

theorem hasText_presentType_iff : (t.presentType (.ofPath path)).hasText = true ↔
    FitsKind (.ofPath path) t .scalar := by
  have hPlain : (t.plainType (.ofPath path)).hasText = t.isScalar := by
    cases hScalar : t.isScalar with
    | true =>
      have hNone := TypeRef.element?_eq_none (TypeRef.isList_of_isScalar hScalar)
      have hPart : (RuntimeTypes.ofPath path).isPart t = false :=
        Bool.eq_false_iff.mpr fun hPart =>
          Bool.false_ne_true ((RuntimeTypes.isScalar_eq_false hPart).symm.trans hScalar)
      simp [TypeRef.plainType, ValueType.hasText, hNone, hPart, hScalar]
    | false =>
      cases hSome : t.element? <;> cases hPart : (RuntimeTypes.ofPath path).isPart t <;>
        simp [TypeRef.plainType, ValueType.hasText, hSome, hPart, hScalar]
  rw [TypeRef.presentType, FitsKind, ← hPlain]
  cases t.byRef <;> rfl

end BodyEncoding

namespace MethodBody

open Code (Expr Statement TypeScope ValueType identifier)
open BodyEncoding (FitsKind OptionalParts partKey partKind? partKind?_eq_some_iff partSpec)

/-- A scope of types in which a parameter has its type, and the form is one. -/
structure Declares (types : RuntimeTypes) (c : Context) (p : Parameter) (scope : TypeScope) :
    Prop where
  form : scope.lookup? c.locals.form = some .form
  parameter : scope.lookup? p.name = some (p.type.valueType types)

variable {c : Context} {p : Parameter} {scope : TypeScope}

theorem lookup?_bind_self (name : String) (t : ValueType) :
    (scope.bind name t).lookup? name = some t := if_pos rfl

theorem lookup?_bind_of_ne {name other : String} (h : identifier other ≠ identifier name)
    (t : ValueType) : (scope.bind name t).lookup? other = scope.lookup? other := if_neg h

theorem wellTyped_extendForm (hForm : scope.lookup? c.locals.form = some .form) {name key : String}
    {value : Expr} : (extendForm c name key value).WellTyped scope ↔
      ∃ t, value.valueType? scope = some t ∧ ValueType.method? .form name [.text, t] = some .form := by
  have hValue : (Expr.method (.var c.locals.form) name [.string key, value]).valueType? scope =
      (value.valueType? scope).bind fun t => ValueType.method? .form name [.text, t] := by
    cases hType : value.valueType? scope <;> simp [Expr.valueType?, Expr.valueTypes?, hForm, hType]
  simp [extendForm, Statement.WellTyped, hForm, hValue, Option.bind_eq_some_iff]

theorem wellTyped_part_iff (hForm : scope.lookup? c.locals.form = some .form) {key : String}
    {value : Expr} : (extendForm c "part" key value).WellTyped scope ↔
      value.valueType? scope = some .part := by
  have hMethod (t : ValueType) : ValueType.method? .form "part" [.text, t] = some .form ↔ t = .part := by
    cases t <;> simp [ValueType.method?]
  simp [wellTyped_extendForm hForm, hMethod]

theorem wellTyped_text_iff (hForm : scope.lookup? c.locals.form = some .form) {key : String}
    {value : Expr} : (extendForm c "text" key (toText value)).WellTyped scope ↔
      ∃ t, value.valueType? scope = some t ∧ t.hasText = true := by
  have hMethod (t : ValueType) : ValueType.method? .form "text" [.text, t] = some .form ↔ t = .text := by
    cases t <;> simp [ValueType.method?]
  have hText : (toText value).valueType? scope =
      (value.valueType? scope).bind fun t => if t.hasText then some .text else none := by
    simp [toText, Expr.valueType?, Expr.valueTypes?, ValueType.method?]
  simp [wellTyped_extendForm hForm, hMethod, hText, Option.bind_eq_some_iff]

/-! ## One statement for each kind -/

theorem wellTyped_forEach_part (hForm : scope.lookup? c.locals.form = some .form)
    (hApart : identifier c.locals.form ≠ identifier c.locals.part) {key : String} {source : Expr} :
    (Statement.forEach c.locals.part source
      [extendForm c "part" key (.var c.locals.part)]).WellTyped scope ↔
        (source.valueType? scope).bind (·.items?) = some .part := by
  have hBody (t : ValueType) : Statement.AllWellTyped (scope.bind c.locals.part t)
      [extendForm c "part" key (.var c.locals.part)] ↔ t = .part := by
    have hFormBelow := (lookup?_bind_of_ne hApart t).trans hForm
    simp [Statement.AllWellTyped, wellTyped_part_iff hFormBelow, Expr.valueType?, lookup?_bind_self]
  simp [Statement.WellTyped, hBody]

theorem wellTyped_ifSome {statement : Expr → Statement} {P : Option ValueType → Prop}
    (h : ∀ (scope : TypeScope) (value : Expr), scope.lookup? c.locals.form = some .form →
      ((statement value).WellTyped scope ↔ P (value.valueType? scope)))
    (hForm : scope.lookup? c.locals.form = some .form)
    (hApart : identifier c.locals.form ≠ identifier c.locals.value) {source : Expr} :
    (Statement.ifSome c.locals.value source [statement (.var c.locals.value)]).WellTyped scope ↔
      ∃ t, (source.valueType? scope).bind (·.content?) = some t ∧ P (some t) := by
  have hBody (t : ValueType) : Statement.AllWellTyped (scope.bind c.locals.value t)
      [statement (.var c.locals.value)] ↔ P (some t) := by
    have hFormBelow := (lookup?_bind_of_ne hApart t).trans hForm
    simp [Statement.AllWellTyped, h _ _ hFormBelow, Expr.valueType?, lookup?_bind_self]
  simp [Statement.WellTyped, hBody]

/-- The statement of a kind has its types right for the types that fit the kind. -/
theorem wellTyped_appendPart_iff {path : String} (h : Declares (.ofPath path) c p scope)
    (hPart : identifier c.locals.form ≠ identifier c.locals.part)
    (hValue : identifier c.locals.form ≠ identifier c.locals.value) (key : String)
    (kind : PartKind) :
    (appendPart c ⟨key, p.name, kind, p.type.nullable⟩).WellTyped scope ↔
      FitsKind (.ofPath path) p.type kind := by
  have hType : (Expr.var p.name).valueType? scope = some (p.type.valueType (.ofPath path)) :=
    h.parameter
  rw [TypeRef.valueType_eq] at hType
  cases hNullable : p.type.nullable <;> rw [hNullable] at hType <;> cases kind
  case false.list =>
    rw [appendPart, wellTyped_forEach_part h.form hPart, hType]
    exact BodyEncoding.items?_presentType_iff
  case false.raw =>
    rw [appendPart, wellTyped_part_iff h.form, hType]
    exact Option.some_inj.trans BodyEncoding.presentType_eq_part_iff
  case false.scalar =>
    rw [appendPart, wellTyped_text_iff h.form, hType, ← BodyEncoding.hasText_presentType_iff]
    simp
  case true.list =>
    have hItems : ((Expr.method (.method (.var p.name) "into_iter" []) "flatten" []).valueType?
        scope).bind (·.items?) = (p.type.presentType (.ofPath path)).items? := by
      cases hItem : (p.type.presentType (.ofPath path)).items? <;>
        simp_all [Expr.valueType?, Expr.valueTypes?, ValueType.method?, ValueType.items?]
    rw [appendPart, wellTyped_forEach_part h.form hPart, hItems]
    exact BodyEncoding.items?_presentType_iff
  case true.raw =>
    rw [appendPart, wellTyped_ifSome (P := (· = some .part))
      (fun _ _ hForm => wellTyped_part_iff hForm) h.form hValue, hType,
      ← BodyEncoding.presentType_eq_part_iff]
    simp [ValueType.content?]
  case true.scalar =>
    rw [appendPart, wellTyped_ifSome (P := fun type => ∃ t, type = some t ∧ t.hasText = true)
      (fun _ _ hForm => wellTyped_text_iff hForm) h.form hValue, Expr.valueType?, hType,
      ← BodyEncoding.hasText_presentType_iff]
    simp [ValueType.content?, ValueType.hasText]

/-! ## Parameters that are parts -/

/-- What is promised of a parameter that is a part: it is taken as the kind that its type fits, the
statement of the kind hands values of the right types on, and a type that fits none is reported. -/
structure PartFits (interface : String) (m : Method) (types : RuntimeTypes) (p : Parameter) :
    Prop where
  taken : ∀ kind, FitsKind types p.type kind → partSpec interface m types p =
    .ok ⟨partKey p, p.name, kind, p.type.nullable⟩
  kind : ∀ spec, partSpec interface m types p = .ok spec → FitsKind types p.type spec.kind
  nullable : ∀ spec, partSpec interface m types p = .ok spec → spec.nullable = p.type.nullable
  statement : ∀ spec, partSpec interface m types p = .ok spec →
    ∀ scope, Declares types (.ofMethod m) p scope →
      (appendPart (.ofMethod m) spec).WellTyped scope
  reported : (∀ kind, ¬FitsKind types p.type kind) → partSpec interface m types p =
    .error (.unsupportedPart interface m.name p.name p.type.display)

theorem partSpec_eq_ok_iff {interface : String} {m : Method} {types : RuntimeTypes} {spec : PartSpec} :
    partSpec interface m types p = .ok spec ↔ ∃ kind, partKind? types p.type = some kind ∧
      spec = ⟨partKey p, p.name, kind, p.type.nullable⟩ := by
  unfold partSpec
  cases partKind? types p.type <;> simp [eq_comm]

/-- A list of optional parts is the one type that is taken for what it is not. -/
theorem partFits_iff (interface path : String) (m : Method) (p : Parameter) :
    PartFits interface m (.ofPath path) p ↔ ¬OptionalParts (.ofPath path) p.type := by
  constructor
  · intro h hOptional
    have hKind := partKind?_eq_some_iff.mpr (.inr ⟨rfl, hOptional⟩)
    obtain ⟨-, element, hElement, -, -, hPresent⟩ :=
      h.kind _ (partSpec_eq_ok_iff.mpr ⟨.list, hKind, rfl⟩)
    obtain ⟨-, other, hOther, -, -, hNullable⟩ := hOptional
    obtain rfl := Option.some.inj (hElement.symm.trans hOther)
    exact Bool.false_ne_true (hPresent.symm.trans hNullable)
  · intro hNot
    have hKind {kind : PartKind} : partKind? (.ofPath path) p.type = some kind ↔
        FitsKind (.ofPath path) p.type kind :=
      partKind?_eq_some_iff.trans (or_iff_left fun h => hNot h.2)
    have hPlain := Locals.plain_ofMethod m
    have hApart := Locals.apart_ofMethod m
    refine ⟨fun kind hFits => ?_, fun spec hSpec => ?_, fun spec hSpec => ?_, fun spec hSpec => ?_,
      fun hNone => ?_⟩
    · exact partSpec_eq_ok_iff.mpr ⟨kind, hKind.mpr hFits, rfl⟩
    · obtain ⟨kind, hSome, rfl⟩ := partSpec_eq_ok_iff.mp hSpec
      exact hKind.mp hSome
    · obtain ⟨kind, hSome, rfl⟩ := partSpec_eq_ok_iff.mp hSpec
      rfl
    · obtain ⟨kind, hSome, rfl⟩ := partSpec_eq_ok_iff.mp hSpec
      intro scope hScope
      refine (wellTyped_appendPart_iff hScope ?_ ?_ _ kind).mpr (hKind.mp hSome)
      · rw [Context.ofMethod, hPlain.form, hPlain.part]
        exact hApart.part_form.symm
      · rw [Context.ofMethod, hPlain.form, hPlain.value]
        exact hApart.value_form.symm
    · have hNoKind : partKind? (.ofPath path) p.type = none :=
        Option.eq_none_iff_forall_ne_some.mpr fun kind hSome => hNone kind (hKind.mp hSome)
      rw [partSpec, hNoKind]

/-- `files: Vec<Part>`, or `files: Vec<Option<Part>>`. -/
def filesParameter (optional : Bool) : Parameter where
  name := "files"
  type := { TypeRef.named "std::vec::Vec" "Vec" with
    arguments := [{ TypeRef.named "reqwest::multipart::Part" "Part" with nullable := optional }] }
  binding := .part "file"

def filesScope : TypeScope :=
  TypeScope.bind (TypeScope.bind (fun _ => none) "files" (.list .part)) "form" .form

theorem files_partFits :
    Declares (.ofPath "crate::runtime") (.ofMethod BodyEncoding.uploadMethod)
      (filesParameter false) filesScope ∧
    PartFits "UploadApi" BodyEncoding.uploadMethod (.ofPath "crate::runtime")
      (filesParameter false) := by
  refine ⟨⟨by decide +kernel, by decide +kernel⟩, ?_⟩
  refine (partFits_iff "UploadApi" "crate::runtime" _ _).mpr ?_
  rintro ⟨-, element, hElement, -, -, hNullable⟩
  obtain rfl := Option.some.inj hElement
  cases hNullable

/-- Optional parts are taken for parts. -/
theorem not_partFits_optionalFiles :
    ¬PartFits "UploadApi" BodyEncoding.uploadMethod (.ofPath "crate::runtime")
      (filesParameter true) := by
  intro h
  have hSpec : partSpec "UploadApi" BodyEncoding.uploadMethod (.ofPath "crate::runtime")
      (filesParameter true) = .ok ⟨"file", "files", .list, false⟩ := rfl
  obtain ⟨-, element, hElement, -, -, hPresent⟩ := h.kind _ hSpec
  obtain rfl := Option.some.inj hElement
  cases hPresent

end MethodBody
end TraitClient
