import TraitClient.Error

/-!
# From trait functions to methods

A function with one HTTP method attribute is a method of the service.  Its attributes are looked at
first, then the template, the parameters from left to right, and the return type; the first fault
is reported.
-/
namespace TraitClient.Extraction

open Source (Attribute TraitFunction FunctionParameter)

structure FunctionNotes where
  verbs : List (Verb × Attribute)
  modifiers : Modifiers

def staticHeaders : List String → Except Fault (List StaticHeader)
  | [] => .ok []
  | raw :: rest =>
    match StaticHeader.ofText? raw with
    | none => .error (.headerShape raw)
    | some header => do
      let more ← staticHeaders rest
      .ok (header :: more)

def withModifier (m : Modifiers) (a : Attribute) : ModifierKind → Except Fault Modifiers
  | .multipart => .ok { m with multipart := true }
  | .formUrlEncoded => .ok { m with formUrlEncoded := true }
  | .textResponse => .ok { m with textResponse := true }
  | .headers =>
    match a.strings with
    | .error e => .error (.headersArgument e)
    | .ok raw => do
      let headers ← staticHeaders raw
      .ok { m with headers := m.headers ++ headers }

def notesFrom (classify : Attribute → Option AnnotationKind) (notes : FunctionNotes) :
    List Attribute → Except Fault FunctionNotes
  | [] => .ok notes
  | a :: rest =>
    match classify a with
    | none => notesFrom classify notes rest
    | some (.verb v) => notesFrom classify { notes with verbs := notes.verbs ++ [(v, a)] } rest
    | some (.modifier kind) => do
      let modifiers ← withModifier notes.modifiers a kind
      notesFrom classify { notes with modifiers } rest
    | some kind => .error (.notForMethods kind)

def bindingKinds (classify : Attribute → Option AnnotationKind) :
    List Attribute → Except BindingFault (List (BindingKind × Attribute))
  | [] => .ok []
  | a :: rest =>
    match classify a with
    | none => bindingKinds classify rest
    | some (.binding kind) => do
      let more ← bindingKinds classify rest
      .ok ((kind, a) :: more)
    | some kind => .error (.notForParameters kind)

/-- The binding that one attribute stands for; `name` is the key where the attribute gives none. -/
def bindingOf (name : String) (kind : BindingKind) (a : Attribute) : Except BindingFault Binding :=
  let keyed (make : String → Binding) (key : Except ArgumentError String) :=
    match key with
    | .ok key => .ok (make key)
    | .error e => .error (BindingFault.argument e)
  match kind with
  | .path => keyed .path (a.stringOr name)
  | .query => keyed .query (a.stringOr name)
  | .part => keyed .part (a.stringOr name)
  | .header => keyed .header (a.nonEmptyString "a header name")
  | .field => keyed .field (a.nonEmptyString "a field name")
  | .body =>
    match a.noArguments with
    | .ok () => .ok .body
    | .error e => .error (.bodyArgument e)
  | .fieldMap =>
    match a.noArguments with
    | .ok () => .ok .fieldMap
    | .error e => .error (.fieldMapArgument e)

def parameterBinding (classify : Attribute → Option AnnotationKind) (name : String)
    (attributes : List Attribute) : Except BindingFault Binding := do
  match ← bindingKinds classify attributes with
  | [] => .ok .unbound
  | [(kind, a)] => bindingOf name kind a
  | _ => .error .several

/-- Drops every `r#` at the front of a name. -/
def dropRawMarks : List Char → List Char
  | 'r' :: '#' :: rest => dropRawMarks rest
  | s => s

def defaultKey (name : String) : String := String.ofList (dropRawMarks name.toList)

def parameterOf (table : AnnotationTable) (imports : Imports) (attributes : List Attribute)
    (name : Option String) (type : Source.TypeExpr) : Except Fault Parameter :=
  match name with
  | none => .error .parameterPattern
  | some name =>
    match imports.resolve type with
    | .error e => .error (.parameterType name e)
    | .ok type =>
      match parameterBinding (table.classify imports) (defaultKey name) attributes with
      | .error fault => .error (.parameterBinding name fault)
      | .ok binding => .ok { name, type, binding }

def parametersOf (table : AnnotationTable) (imports : Imports) :
    List FunctionParameter → Except Fault (List Parameter)
  | [] => .ok []
  | .receiver .. :: rest => parametersOf table imports rest
  | .typed attributes name type :: rest => do
    let first ← parameterOf table imports attributes name type
    let more ← parametersOf table imports rest
    .ok (first :: more)

def takesRefSelf : List FunctionParameter → Bool
  | .receiver byReference isMut :: _ => byReference && !isMut
  | _ => false

/-- The method of a trait function; none if it has no HTTP method. -/
def methodOf? (table : AnnotationTable) (imports : Imports) (declaredIn : String)
    (f : TraitFunction) : Except Fault (Option Method) := do
  let notes ← notesFrom (table.classify imports) ⟨[], {}⟩ f.attributes
  match notes.verbs with
  | [] => .ok none
  | [(verb, a)] =>
    let template ← match a.requiredString "a path template string" with
      | .ok template => .ok template
      | .error e => .error (Fault.verbArgument a.displayName e)
    let parameters ← parametersOf table imports f.parameters
    let returnType ← match f.output with
      | none => .ok TypeRef.unit
      | some type =>
        match imports.resolve type with
        | .ok type => .ok type
        | .error e => .error (Fault.returnType e)
    .ok <| some
      { name := f.name
        declaredIn
        verb
        template
        parameters
        returnType
        modifiers := notes.modifiers
        signature :=
          { isAsync := f.isAsync
            hasRefSelf := takesRefSelf f.parameters
            hasGenerics := f.hasGenerics } }
  | verbs => .error (.severalVerbs (verbs.map (·.1)))

end TraitClient.Extraction
