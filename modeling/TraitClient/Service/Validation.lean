import TraitClient.Error
import TraitClient.Service.RuntimeTypes

/-!
# Rules for methods

Each rule finds its first fault in a method, if it has one.  A method is valid if no rule finds a
fault; otherwise the first rule in the list that finds one is reported.
-/
namespace TraitClient.Validation

def require (condition : Bool) (fault : Fault) : Option Fault :=
  if condition then none else some fault

/-! ## Sorted names -/

def insertSorted (name : String) : List String → List String
  | [] => [name]
  | a :: as =>
    if name == a then a :: as else if name < a then name :: a :: as else a :: insertSorted name as

def sortedNames (names : List String) : List String := names.foldr insertSorted []

/-! ## The rules -/

/-- The first `path` key that is bound twice or to an optional parameter. -/
def pathKeyFault? (seen : List String) : List Parameter → Option Fault
  | [] => none
  | p :: rest =>
    match p.pathKey? with
    | none => pathKeyFault? seen rest
    | some key =>
      if seen.contains key then some (.repeatedPathKey key)
      else if p.type.nullable then some (.optionalPathParameter p.name)
      else pathKeyFault? (key :: seen) rest

/-- The keys of `path` parameters are distinct, none of them is optional, and they are exactly the
placeholders of the template. -/
def pathPlaceholders (m : Method) : Option Fault :=
  match pathKeyFault? [] m.parameters with
  | some fault => some fault
  | none =>
    let names := Template.placeholders m.template
    let keys := m.parameters.filterMap (·.pathKey?)
    let missing := sortedNames (names.filter (!keys.contains ·))
    let unknown := sortedNames (keys.filter (!names.contains ·))
    if !missing.isEmpty then some (.unboundPlaceholders m.template missing)
    else if !unknown.isEmpty then some (.unknownPathKeys m.template unknown)
    else none

def bodyCardinality (m : Method) : Option Fault :=
  require (m.bodies.length ≤ 1) (.severalBodies (m.bodies.map (·.name)))

def bodyBinding? (p : Parameter) : Option BindingKind :=
  match p.binding with
  | .body => some .body
  | .field _ => some .field
  | .fieldMap => some .fieldMap
  | _ => none

def bodyVerb (m : Method) : Option Fault :=
  if m.verb.allowsBody then none
  else (m.parameters.findSome? bodyBinding?).map fun kind => .bodyOnVerb kind m.verb

def bodyFieldExclusive (m : Method) : Option Fault :=
  require (m.bodies.isEmpty || m.formFields.isEmpty) .bodyWithFields

/-- Parts need the multipart modifier.  A multipart request has parts or one owned form, a method
that allows a body, and no fields. -/
def multipartShape (types : RuntimeTypes) (m : Method) : Option Fault :=
  if !m.modifiers.multipart then require m.parts.isEmpty .partsWithoutMultipart
  else if !m.verb.allowsBody then some (.multipartOnVerb m.verb)
  else if m.modifiers.formUrlEncoded then some .multipartWithForm
  else if !m.formFields.isEmpty then some .multipartWithFields
  else match m.parts, m.bodies with
    | [], [] => some .multipartEmpty
    | _ :: _, _ :: _ => some .partsWithBody
    | [], body :: _ =>
      require (types.isForm body.type && !body.type.nullable && !body.type.byRef)
        (.multipartBodyType body.name body.type)
    | _ :: _, [] => none

/-- A form needs a method that allows a body, and no other body. -/
def formShape (m : Method) : Option Fault :=
  if !m.modifiers.formUrlEncoded then none
  else if !m.verb.allowsBody then some (.formOnVerb m.verb)
  else require m.bodies.isEmpty .formWithBody

def fieldMapType (m : Method) : Option Fault :=
  (m.parameters.find? fun p => p.binding = .fieldMap && !p.type.isMap).map fun p =>
    .fieldMapType p.name p.type

/-- The signature is asynchronous, takes `&self`, is not generic, and returns a `Result` whose
success is no reference. -/
def signature (m : Method) : Option Fault :=
  if !m.signature.isAsync then some .notAsync
  else if !m.signature.hasRefSelf then some .notByReference
  else if m.signature.hasGenerics then some .genericMethod
  else match m.successType? with
    | none => some (.noResult m.returnType)
    | some success => require (!success.byRef) (.borrowedSuccess success)

def textResponse (m : Method) : Option Fault :=
  if !m.modifiers.textResponse then none
  else match m.successType? with
    | some success =>
      require (success.isText && !success.nullable && success.path != "str")
        (.textSuccessType success)
    | none => some .textWithoutSuccess

def rules (types : RuntimeTypes) : List (Method → Option Fault) :=
  [pathPlaceholders, bodyCardinality, bodyVerb, bodyFieldExclusive, multipartShape types, formShape,
    fieldMapType, signature, textResponse]

def fault? (types : RuntimeTypes) (m : Method) : Option Fault :=
  (rules types).findSome? fun rule => rule m

def violation? (types : RuntimeTypes) (i : Interface) : Option Violation :=
  i.methods.findSome? fun m => (fault? types m).map fun fault => ⟨i.name, m.name, fault⟩

end TraitClient.Validation
