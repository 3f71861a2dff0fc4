import TraitClient.Dump.Format
import TraitClient.Proofs.DocumentText

/-!
# Reading dumped plans

The documents of a dump are read back as the plans they were written for.
-/
namespace TraitClient

/-! ## Entries -/

namespace Json

def text? : Json → Option String
  | .str s => some s
  | _ => none

def flag? : Json → Option Bool
  | .bool b => some b
  | _ => none

def each? {α : Type} (read : Json → Option α) : Json → Option (List α)
  | .arr items => items.mapM read
  | _ => none

def field? {α : Type} (v : Json) (key : String) (read : Json → Option α) : Option α :=
  (v.get? key).bind read

/-- What an object says of a key that is left out with an empty list. -/
def listField? {α : Type} (v : Json) (key : String) (read : Json → Option α) : Option (List α) :=
  match v.get? key with
  | some items => items.each? read
  | none => some []

/-- Documents of a kind have no numbers, and are read back as what they were written for. -/
structure IsCodec {α : Type} (document : α → Json) (read : Json → Option α) : Prop where
  numberFree (a : α) : (document a).NumberFree
  read_document (a : α) : read (document a) = some a

variable {α : Type} {document : α → Json} {read : Json → Option α}

theorem IsCodec.mapM (h : IsCodec document read) (as : List α) :
    (as.map document).mapM read = some as := by
  induction as with
  | nil => rfl
  | cons a as ih => simp [List.mapM_cons, h.read_document, ih]

theorem IsCodec.each (h : IsCodec document read) :
    IsCodec (fun as => .arr (as.map document)) (each? read) where
  numberFree as := by simpa using fun a _ => h.numberFree a
  read_document as := h.mapM as

theorem isCodec_text : IsCodec .str text? := ⟨.str, fun _ => rfl⟩

theorem numberFree_listEntry (h : IsCodec document read) (key : String) (as : List α) :
    ∀ e ∈ listEntry key (as.map document), e.2.NumberFree := by
  cases as with
  | nil => simp [listEntry]
  | cons a as => simpa [listEntry] using ⟨h.numberFree a, fun a _ => h.numberFree a⟩

theorem field?_append_listEntry {key other : String} (h : other ≠ key)
    (entries : List (String × Json)) (items : List Json) :
    (obj (entries ++ listEntry key items)).field? other read = (obj entries).field? other read := by
  cases items with
  | nil => simp [listEntry]
  | cons v items => simp [listEntry, field?, get?, Ne.symm h]

theorem IsCodec.listField?_append (h : IsCodec document read) {key : String}
    {entries : List (String × Json)} (hOther : (obj entries).get? key = none) (as : List α) :
    (obj (entries ++ listEntry key (as.map document))).listField? key read = some as := by
  cases as with
  | nil => simp [listEntry, listField?, hOther]
  | cons a as =>
    have hLast : (obj (entries ++ listEntry key ((a :: as).map document))).get? key =
        some (.arr ((a :: as).map document)) := by
      simp [listEntry, get?]
    rw [listField?, hLast]
    exact h.mapM (a :: as)

end Json

open Json

/-! ## Types -/

mutual

def TypeRef.ofDocument? : Json → Option TypeRef
  | .obj entries => TypeRef.ofEntries? entries
  | _ => none

def TypeRef.ofEntries? : List (String × Json) → Option TypeRef
  | [] => some (TypeRef.named "" "")
  | ("qualified_name", .str qualifiedName) :: rest =>
    (TypeRef.ofEntries? rest).map fun t => { t with qualifiedName }
  | ("path", .str path) :: rest => (TypeRef.ofEntries? rest).map fun t => { t with path }
  | ("type_arguments", .arr items) :: rest => do
    let arguments ← TypeRef.ofDocuments? items
    (TypeRef.ofEntries? rest).map fun t => { t with arguments }
  | ("nullable", .bool nullable) :: rest => (TypeRef.ofEntries? rest).map fun t => { t with nullable }
  | ("by_ref", .bool byRef) :: rest => (TypeRef.ofEntries? rest).map fun t => { t with byRef }
  | ("lifetime", .str lifetime) :: rest =>
    (TypeRef.ofEntries? rest).map fun t => { t with lifetime := some lifetime }
  | _ :: _ => none

def TypeRef.ofDocuments? : List Json → Option (List TypeRef)
  | [] => some []
  | v :: rest => do
    let t ← TypeRef.ofDocument? v
    let ts ← TypeRef.ofDocuments? rest
    some (t :: ts)

end

mutual

theorem TypeRef.ofDocument?_document (t : TypeRef) : TypeRef.ofDocument? t.document = some t := by
  -- What is left out is what a type has before anything is said of it.
  obtain ⟨qualifiedName, path, arguments, nullable, byRef, lifetime⟩ := t
  have hArguments := TypeRef.ofDocuments?_documents arguments
  cases arguments with
  | nil =>
    cases lifetime <;> simp [TypeRef.document, TypeRef.documents, listEntry, TypeRef.ofDocument?,
      TypeRef.ofEntries?, TypeRef.named]
  | cons a arguments =>
    rw [TypeRef.documents] at hArguments
    cases lifetime <;> simp [TypeRef.document, TypeRef.documents, listEntry, TypeRef.ofDocument?,
      TypeRef.ofEntries?, TypeRef.named, hArguments]

theorem TypeRef.ofDocuments?_documents (ts : List TypeRef) :
    TypeRef.ofDocuments? (TypeRef.documents ts) = some ts := by
  cases ts with
  | nil => rfl
  | cons t ts =>
    rw [TypeRef.documents, TypeRef.ofDocuments?, TypeRef.ofDocument?_document t,
      TypeRef.ofDocuments?_documents ts]
    rfl

end

mutual

theorem TypeRef.numberFree_document (t : TypeRef) : t.document.NumberFree := by
  obtain ⟨qualifiedName, path, arguments, nullable, byRef, lifetime⟩ := t
  have hArguments := TypeRef.numberFree_documents arguments
  cases hItems : TypeRef.documents arguments with
  | nil => cases lifetime <;> simp [TypeRef.document, listEntry, hItems]
  | cons v items =>
    rw [hItems] at hArguments
    cases lifetime <;> simpa [TypeRef.document, listEntry, hItems] using hArguments

theorem TypeRef.numberFree_documents (ts : List TypeRef) :
    ∀ v ∈ TypeRef.documents ts, v.NumberFree := by
  cases ts with
  | nil => simp [TypeRef.documents]
  | cons t ts =>
    simpa [TypeRef.documents] using
      ⟨TypeRef.numberFree_document t, TypeRef.numberFree_documents ts⟩

end

theorem TypeRef.isCodec : IsCodec TypeRef.document TypeRef.ofDocument? :=
  ⟨TypeRef.numberFree_document, TypeRef.ofDocument?_document⟩

/-! ## Methods -/

def Binding.ofDocument? (v : Json) : Option Binding :=
  match v.field? "kind" text? with
  | some "path" => (v.field? "key" text?).map .path
  | some "query" => (v.field? "key" text?).map .query
  | some "header" => (v.field? "key" text?).map .header
  | some "body" => some .body
  | some "field" => (v.field? "key" text?).map .field
  | some "field_map" => some .fieldMap
  | some "part" => (v.field? "key" text?).map .part
  | some "unbound" => some .unbound
  | _ => none

theorem Binding.isCodec : IsCodec Binding.document Binding.ofDocument? where
  numberFree b := by cases b <;> simp [Binding.document]
  read_document b := by
    cases b <;> simp [Binding.document, Binding.ofDocument?, field?, get?, text?]

def Parameter.ofDocument? (v : Json) : Option Parameter := do
  let name ← v.field? "name" text?
  let type ← v.field? "ty" TypeRef.ofDocument?
  let binding ← v.field? "binding" Binding.ofDocument?
  some { name, type, binding }

theorem Parameter.isCodec : IsCodec Parameter.document Parameter.ofDocument? where
  numberFree p := by
    simp [Parameter.document, TypeRef.isCodec.numberFree, Binding.isCodec.numberFree]
  read_document p := by
    simp [Parameter.document, Parameter.ofDocument?, field?, get?, text?,
      TypeRef.isCodec.read_document, Binding.isCodec.read_document]

def StaticHeader.ofDocument? (v : Json) : Option StaticHeader := do
  let name ← v.field? "name" text?
  let value ← v.field? "value" text?
  some { name, value }

theorem StaticHeader.isCodec : IsCodec StaticHeader.document StaticHeader.ofDocument? where
  numberFree h := by simp [StaticHeader.document]
  read_document h := by simp [StaticHeader.document, StaticHeader.ofDocument?, field?, get?, text?]

def Modifiers.ofDocument? (v : Json) : Option Modifiers := do
  let multipart ← v.field? "multipart" flag?
  let formUrlEncoded ← v.field? "form_url_encoded" flag?
  let textResponse ← v.field? "text_response" flag?
  let headers ← v.listField? "headers" StaticHeader.ofDocument?
  some { multipart, formUrlEncoded, textResponse, headers }

theorem Modifiers.isCodec : IsCodec Modifiers.document Modifiers.ofDocument? where
  numberFree m := by
    have hHeaders := numberFree_listEntry StaticHeader.isCodec "headers" m.headers
    simpa [Modifiers.document] using hHeaders
  read_document m := by
    rw [Modifiers.ofDocument?, Modifiers.document,
      StaticHeader.isCodec.listField?_append (by simp [get?]) m.headers]
    simp only [ne_eq, String.reduceEq, not_false_eq_true, field?_append_listEntry]
    simp [field?, get?, flag?]

def SignatureShape.ofDocument? (v : Json) : Option SignatureShape := do
  let isAsync ← v.field? "is_async" flag?
  let hasRefSelf ← v.field? "has_ref_self" flag?
  let hasGenerics ← v.field? "has_generics" flag?
  some { isAsync, hasRefSelf, hasGenerics }

theorem SignatureShape.isCodec : IsCodec SignatureShape.document SignatureShape.ofDocument? where
  numberFree s := by simp [SignatureShape.document]
  read_document s := by
    simp [SignatureShape.document, SignatureShape.ofDocument?, field?, get?, flag?]

def Verb.ofDocument? (v : Json) : Option Verb :=
  v.text?.bind fun text => Verb.all.find? (·.text == text)

theorem Verb.isCodec : IsCodec (fun verb => .str verb.text) Verb.ofDocument? where
  numberFree verb := .str verb.text
  read_document verb := by cases verb <;> rfl

def Method.ofDocument? (v : Json) : Option Method := do
  let name ← v.field? "name" text?
  let declaredIn ← v.field? "declared_in" text?
  let verb ← v.field? "http_method" Verb.ofDocument?
  let template ← v.field? "path_template" text?
  let parameters ← v.field? "parameters" (each? Parameter.ofDocument?)
  let returnType ← v.field? "return_type" TypeRef.ofDocument?
  let modifiers ← v.field? "modifiers" Modifiers.ofDocument?
  let signature ← v.field? "signature" SignatureShape.ofDocument?
  some { name, declaredIn, verb, template, parameters, returnType, modifiers, signature }

theorem Method.isCodec : IsCodec Method.document Method.ofDocument? where
  numberFree m := by
    have hParameters := Parameter.isCodec.each.numberFree m.parameters
    simpa [Method.document, TypeRef.isCodec.numberFree, Modifiers.isCodec.numberFree,
      SignatureShape.isCodec.numberFree] using hParameters
  read_document m := by
    simp [Method.document, Method.ofDocument?, field?, get?, text?, Verb.isCodec.read_document,
      Parameter.isCodec.each.read_document, TypeRef.isCodec.read_document,
      Modifiers.isCodec.read_document, SignatureShape.isCodec.read_document]

/-! ## Interfaces -/

def Visibility.ofDocument? (v : Json) : Option Visibility :=
  v.text?.bind fun text => [Visibility.everywhere, .crateOnly].find? (·.label == text)

theorem Visibility.isCodec : IsCodec (fun visibility => .str visibility.label)
    Visibility.ofDocument? where
  numberFree visibility := .str visibility.label
  read_document visibility := by cases visibility <;> rfl

def Interface.ofDocument? (v : Json) : Option Interface := do
  let modulePath ← v.field? "module_path" (each? text?)
  let name ← v.field? "name" text?
  let visibility ← v.field? "visibility" Visibility.ofDocument?
  let sourceFile ← v.field? "source_file" text?
  let methods ← v.field? "methods" (each? Method.ofDocument?)
  let supertraits ← v.listField? "supertraits" text?
  some { modulePath, name, visibility, sourceFile, methods, supertraits }

theorem Interface.isCodec : IsCodec Interface.document Interface.ofDocument? where
  numberFree i := by
    have hModule := isCodec_text.each.numberFree i.modulePath
    have hMethods := Method.isCodec.each.numberFree i.methods
    have hSupertraits := numberFree_listEntry isCodec_text "supertraits" i.supertraits
    simpa [Interface.document, strings, hModule, hMethods] using hSupertraits
  read_document i := by
    rw [Interface.ofDocument?, Interface.document,
      isCodec_text.listField?_append (by simp [get?]) i.supertraits]
    simp only [ne_eq, String.reduceEq, not_false_eq_true, field?_append_listEntry]
    simp [field?, get?, text?, strings, isCodec_text.each.read_document,
      Visibility.isCodec.read_document, Method.isCodec.each.read_document]

/-! ## Encodings -/

def FieldSpec.ofDocument? (v : Json) : Option FieldSpec := do
  let key ← v.field? "key" text?
  let parameter ← v.field? "param" text?
  let nullable ← v.field? "nullable" flag?
  some { key, parameter, nullable }

theorem FieldSpec.isCodec : IsCodec FieldSpec.document FieldSpec.ofDocument? where
  numberFree f := by simp [FieldSpec.document]
  read_document f := by simp [FieldSpec.document, FieldSpec.ofDocument?, field?, get?, text?, flag?]

def MapSpec.ofDocument? (v : Json) : Option MapSpec := do
  let parameter ← v.field? "param" text?
  let nullable ← v.field? "nullable" flag?
  some { parameter, nullable }

theorem MapSpec.isCodec : IsCodec MapSpec.document MapSpec.ofDocument? where
  numberFree m := by simp [MapSpec.document]
  read_document m := by simp [MapSpec.document, MapSpec.ofDocument?, field?, get?, text?, flag?]

def PartKind.ofDocument? (v : Json) : Option PartKind :=
  v.text?.bind fun text => [PartKind.list, .raw, .scalar].find? (·.label == text)

theorem PartKind.isCodec : IsCodec (fun kind => .str kind.label) PartKind.ofDocument? where
  numberFree kind := .str kind.label
  read_document kind := by cases kind <;> rfl

def PartSpec.ofDocument? (v : Json) : Option PartSpec := do
  let key ← v.field? "key" text?
  let parameter ← v.field? "param" text?
  let kind ← v.field? "kind" PartKind.ofDocument?
  let nullable ← v.field? "nullable" flag?
  some { key, parameter, kind, nullable }

theorem PartSpec.isCodec : IsCodec PartSpec.document PartSpec.ofDocument? where
  numberFree p := by simp [PartSpec.document]
  read_document p := by
    simp [PartSpec.document, PartSpec.ofDocument?, field?, get?, text?, flag?,
      PartKind.isCodec.read_document]

/-- The encoding of a kind; a multipart form has one of two shapes. -/
def BodyEncoding.ofDocument? (v : Json) : Option BodyEncoding := do
  match v.field? "kind" text? with
  | some "no_body" => some .noBody
  | some "json_object" => (v.field? "param" text?).map .jsonObject
  | some "json_map" =>
    let fields ← v.field? "fields" (each? FieldSpec.ofDocument?)
    (v.field? "maps" (each? MapSpec.ofDocument?)).map (.jsonMap fields)
  | some "form_url_encoded" =>
    let fields ← v.field? "fields" (each? FieldSpec.ofDocument?)
    (v.field? "maps" (each? MapSpec.ofDocument?)).map (.formUrlEncoded fields)
  | some "multipart" =>
    match v.field? "shape" text? with
    | some "wrapper" => (v.field? "param" text?).map .multipartForm
    | some "parts" => (v.field? "parts" (each? PartSpec.ofDocument?)).map .multipartParts
    | _ => none
  | _ => none

theorem BodyEncoding.isCodec : IsCodec BodyEncoding.document BodyEncoding.ofDocument? where
  numberFree e := by
    cases e <;> simp [BodyEncoding.document, BodyEncoding.fieldsDocument,
      FieldSpec.isCodec.numberFree, MapSpec.isCodec.numberFree, PartSpec.isCodec.numberFree]
  read_document e := by
    cases e <;> simp [BodyEncoding.document, BodyEncoding.fieldsDocument, BodyEncoding.ofDocument?,
      field?, get?, text?, FieldSpec.isCodec.each.read_document,
      MapSpec.isCodec.each.read_document, PartSpec.isCodec.each.read_document]

/-! ## Plans -/

def Plan.ofDocument? (v : Json) : Option Plan := do
  let interface ← v.field? "interface" Interface.ofDocument?
  let encodings ← v.field? "encodings" (each? BodyEncoding.ofDocument?)
  some { interface, encodings }

theorem Plan.isCodec : IsCodec Plan.document Plan.ofDocument? where
  numberFree p := by
    simp [Plan.document, Interface.isCodec.numberFree, BodyEncoding.isCodec.numberFree]
  read_document p := by
    simp [Plan.document, Plan.ofDocument?, field?, get?, Interface.isCodec.read_document,
      BodyEncoding.isCodec.each.read_document]

def plansOfDump? (text : String) : Option (List Plan) :=
  (ofDeepText? text).bind (each? Plan.ofDocument?)

/-- A dump in JSON is read back as the plans it was made of, so that it tells any two lists of plans
apart. -/
theorem plansOfDump?_dump : (∀ plans, plansOfDump? (DumpFormat.json.dump plans) = some plans) ∧
    Function.Injective DumpFormat.json.dump := by
  have hRead (plans : List Plan) : plansOfDump? (DumpFormat.json.dump plans) = some plans := by
    have hText := ofDeepText?_pretty (Plan.isCodec.each.numberFree plans)
    rw [plansOfDump?, DumpFormat.dump, hText]
    exact Plan.isCodec.each.read_document plans
  refine ⟨hRead, fun plans others hSame => ?_⟩
  have hBoth := hRead plans
  rw [hSame, hRead others, Option.some.injEq] at hBoth
  exact hBoth.symm

end TraitClient
