import TraitClient.Error
import TraitClient.Service.RuntimeTypes

/-!
# Body encodings

How the body of a request is made from the parameters of a valid method.
-/
namespace TraitClient

structure FieldSpec where
  key : String
  parameter : String
  nullable : Bool
  deriving Repr, DecidableEq

structure MapSpec where
  parameter : String
  nullable : Bool
  deriving Repr, DecidableEq

/-- How a part goes into the form: each element of a list, the part itself, or its text. -/
inductive PartKind
  | list
  | raw
  | scalar
  deriving Repr, DecidableEq

structure PartSpec where
  key : String
  parameter : String
  kind : PartKind
  nullable : Bool
  deriving Repr, DecidableEq

inductive BodyEncoding
  | noBody
  | jsonObject (parameter : String)
  | jsonMap (fields : List FieldSpec) (maps : List MapSpec)
  | formUrlEncoded (fields : List FieldSpec) (maps : List MapSpec)
  | multipartForm (parameter : String)
  | multipartParts (parts : List PartSpec)
  deriving Repr, DecidableEq

namespace BodyEncoding

/-- Parts are moved into the form, so that only owned parts will do. -/
def partKind? (types : RuntimeTypes) (t : TypeRef) : Option PartKind :=
  let isPartList := match t.element? with
    | some e => types.isPart e && !e.byRef
    | none => false
  if !t.byRef && isPartList then some .list
  else if !t.byRef && types.isPart t then some .raw
  else if t.isScalar then some .scalar
  else none

def partKey (p : Parameter) : String :=
  match p.binding with
  | .part key => key
  | _ => p.name

def partSpec (interface : String) (m : Method) (types : RuntimeTypes) (p : Parameter) :
    Except GenerationError PartSpec :=
  match partKind? types p.type with
  | some kind =>
    .ok { key := partKey p, parameter := p.name, kind, nullable := p.type.nullable }
  | none => .error (.unsupportedPart interface m.name p.name p.type.display)

def partSpecs (interface : String) (m : Method) (types : RuntimeTypes) :
    List Parameter → Except GenerationError (List PartSpec)
  | [] => .ok []
  | p :: rest => do
    let first ← partSpec interface m types p
    let more ← partSpecs interface m types rest
    .ok (first :: more)

def fieldSpec? (p : Parameter) : Option FieldSpec :=
  match p.binding with
  | .field key => some { key, parameter := p.name, nullable := p.type.nullable }
  | _ => none

def mapSpec? (p : Parameter) : Option MapSpec :=
  match p.binding with
  | .fieldMap => some { parameter := p.name, nullable := p.type.nullable }
  | _ => none

/-- The encoding of a valid method.  It fails for a part whose type no form takes. -/
def ofMethod (interface : String) (types : RuntimeTypes) (m : Method) :
    Except GenerationError BodyEncoding :=
  match m.modifiers.multipart, m.bodies with
  | true, body :: _ => .ok (.multipartForm body.name)
  | true, [] => do
    let parts ← partSpecs interface m types m.parts
    .ok (.multipartParts parts)
  | false, body :: _ => .ok (.jsonObject body.name)
  | false, [] =>
    let fields := m.parameters.filterMap fieldSpec?
    let maps := m.parameters.filterMap mapSpec?
    .ok <|
      if m.modifiers.formUrlEncoded then .formUrlEncoded fields maps
      else if fields.isEmpty && maps.isEmpty then .noBody
      else .jsonMap fields maps

def ofMethods (interface : String) (types : RuntimeTypes) :
    List Method → Except GenerationError (List BodyEncoding)
  | [] => .ok []
  | m :: rest => do
    let first ← ofMethod interface types m
    let more ← ofMethods interface types rest
    .ok (first :: more)

def ofInterface (types : RuntimeTypes) (i : Interface) :
    Except GenerationError (List BodyEncoding) := ofMethods i.name types i.methods

end BodyEncoding
end TraitClient
