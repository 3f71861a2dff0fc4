import TraitClient.Generation.Analysis
import TraitClient.Json.Basic

/-!
# Plans as documents

How the model is written down.  Empty argument, header and supertrait lists are left out, and so is
an absent lifetime.
-/
namespace TraitClient

/-- An entry that is left out if its list is empty. -/
def Json.listEntry (key : String) : List Json → List (String × Json)
  | [] => []
  | items => [(key, .arr items)]

def Json.strings (texts : List String) : Json := .arr (texts.map .str)

mutual

def TypeRef.document : TypeRef → Json
  | ⟨qualifiedName, path, arguments, nullable, byRef, lifetime⟩ =>
    .obj <|
      [("qualified_name", .str qualifiedName), ("path", .str path)] ++
        Json.listEntry "type_arguments" (TypeRef.documents arguments) ++
        [("nullable", .bool nullable), ("by_ref", .bool byRef)] ++
        (match lifetime with
          | some l => [("lifetime", .str l)]
          | none => [])

def TypeRef.documents : List TypeRef → List Json
  | [] => []
  | t :: rest => t.document :: TypeRef.documents rest

end

def Binding.document : Binding → Json
  | .path key => .obj [("kind", .str "path"), ("key", .str key)]
  | .query key => .obj [("kind", .str "query"), ("key", .str key)]
  | .header key => .obj [("kind", .str "header"), ("key", .str key)]
  | .body => .obj [("kind", .str "body")]
  | .field key => .obj [("kind", .str "field"), ("key", .str key)]
  | .fieldMap => .obj [("kind", .str "field_map")]
  | .part key => .obj [("kind", .str "part"), ("key", .str key)]
  | .unbound => .obj [("kind", .str "unbound")]

def Parameter.document (p : Parameter) : Json :=
  .obj [("name", .str p.name), ("ty", p.type.document), ("binding", p.binding.document)]

def StaticHeader.document (h : StaticHeader) : Json :=
  .obj [("name", .str h.name), ("value", .str h.value)]

def Modifiers.document (m : Modifiers) : Json :=
  .obj <|
    [("multipart", .bool m.multipart), ("form_url_encoded", .bool m.formUrlEncoded),
      ("text_response", .bool m.textResponse)] ++
      Json.listEntry "headers" (m.headers.map StaticHeader.document)

def SignatureShape.document (s : SignatureShape) : Json :=
  .obj [("is_async", .bool s.isAsync), ("has_ref_self", .bool s.hasRefSelf),
    ("has_generics", .bool s.hasGenerics)]

def Method.document (m : Method) : Json :=
  .obj [("name", .str m.name), ("declared_in", .str m.declaredIn),
    ("http_method", .str m.verb.text), ("path_template", .str m.template),
    ("parameters", .arr (m.parameters.map Parameter.document)),
    ("return_type", m.returnType.document), ("modifiers", m.modifiers.document),
    ("signature", m.signature.document)]

def Visibility.label : Visibility → String
  | .everywhere => "public"
  | .crateOnly => "internal"

def Interface.document (i : Interface) : Json :=
  .obj <|
    [("module_path", Json.strings i.modulePath), ("name", .str i.name),
      ("visibility", .str i.visibility.label), ("source_file", .str i.sourceFile),
      ("methods", .arr (i.methods.map Method.document))] ++
      Json.listEntry "supertraits" (i.supertraits.map .str)

def FieldSpec.document (f : FieldSpec) : Json :=
  .obj [("key", .str f.key), ("param", .str f.parameter), ("nullable", .bool f.nullable)]

def MapSpec.document (m : MapSpec) : Json :=
  .obj [("param", .str m.parameter), ("nullable", .bool m.nullable)]

def PartKind.label : PartKind → String
  | .list => "list"
  | .raw => "raw"
  | .scalar => "scalar"

def PartSpec.document (p : PartSpec) : Json :=
  .obj [("key", .str p.key), ("param", .str p.parameter), ("kind", .str p.kind.label),
    ("nullable", .bool p.nullable)]

def BodyEncoding.fieldsDocument (kind : String) (fields : List FieldSpec) (maps : List MapSpec) :
    Json :=
  .obj [("kind", .str kind), ("fields", .arr (fields.map FieldSpec.document)),
    ("maps", .arr (maps.map MapSpec.document))]

def BodyEncoding.document : BodyEncoding → Json
  | .noBody => .obj [("kind", .str "no_body")]
  | .jsonObject parameter => .obj [("kind", .str "json_object"), ("param", .str parameter)]
  | .jsonMap fields maps => fieldsDocument "json_map" fields maps
  | .formUrlEncoded fields maps => fieldsDocument "form_url_encoded" fields maps
  | .multipartForm parameter =>
    .obj [("kind", .str "multipart"), ("shape", .str "wrapper"), ("param", .str parameter)]
  | .multipartParts parts =>
    .obj [("kind", .str "multipart"), ("shape", .str "parts"),
      ("parts", .arr (parts.map PartSpec.document))]

def Plan.document (p : Plan) : Json :=
  .obj [("interface", p.interface.document),
    ("encodings", .arr (p.encodings.map BodyEncoding.document))]

end TraitClient
