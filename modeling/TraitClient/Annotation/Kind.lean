import TraitClient.Annotation.Imports

/-!
# Recognised attributes

An attribute means something if its full name is one of a table of names below a namespace.  The
namespace is that of the crate that declares the attributes in the scanned sources.
-/
namespace TraitClient

inductive BindingKind
  | path
  | query
  | header
  | body
  | field
  | fieldMap
  | part
  deriving Repr, DecidableEq

inductive ModifierKind
  | multipart
  | formUrlEncoded
  | textResponse
  | headers
  deriving Repr, DecidableEq

inductive AnnotationKind
  | apiService
  | verb (v : Verb)
  | binding (k : BindingKind)
  | modifier (k : ModifierKind)
  deriving Repr, DecidableEq

namespace AnnotationKind

def verbLabel : Verb → String
  | .get => "Get"
  | .post => "Post"
  | .put => "Put"
  | .delete => "Delete"
  | .patch => "Patch"
  | .options => "Options"
  | .head => "Head"

def bindingLabel : BindingKind → String
  | .path => "Path"
  | .query => "Query"
  | .header => "Header"
  | .body => "Body"
  | .field => "Field"
  | .fieldMap => "FieldMap"
  | .part => "Part"

def modifierLabel : ModifierKind → String
  | .multipart => "Multipart"
  | .formUrlEncoded => "FormUrlEncoded"
  | .textResponse => "TextResponse"
  | .headers => "Headers"

def label : AnnotationKind → String
  | .apiService => "ApiService"
  | .verb v => "Verb(" ++ verbLabel v ++ ")"
  | .binding k => "Binding(" ++ bindingLabel k ++ ")"
  | .modifier k => "Modifier(" ++ modifierLabel k ++ ")"

end AnnotationKind

def annotationNames : List (String × AnnotationKind) :=
  [("api_service", .apiService),
    ("get", .verb .get), ("post", .verb .post), ("put", .verb .put), ("delete", .verb .delete),
    ("patch", .verb .patch), ("options", .verb .options), ("head", .verb .head),
    ("path", .binding .path), ("query", .binding .query), ("header", .binding .header),
    ("body", .binding .body), ("field", .binding .field), ("field_map", .binding .fieldMap),
    ("part", .binding .part), ("multipart", .modifier .multipart),
    ("form_url_encoded", .modifier .formUrlEncoded), ("text_response", .modifier .textResponse),
    ("headers", .modifier .headers)]

def dropLeadingColons : List Char → List Char
  | ':' :: ':' :: rest => dropLeadingColons rest
  | s => s

def withoutLeadingColons (path : String) : String := String.ofList (dropLeadingColons path.toList)

structure AnnotationTable where
  space : String
  deriving Repr

namespace AnnotationTable

/-- The table of a namespace; `::` in front of it counts for nothing. -/
def ofNamespace (path : String) : AnnotationTable := ⟨withoutLeadingColons path⟩

def lookup (table : AnnotationTable) (name : String) : Option AnnotationKind :=
  (annotationNames.find? fun entry =>
    table.space ++ "::" ++ entry.1 == withoutLeadingColons name).map (·.2)

def verb? (table : AnnotationTable) (name : String) : Option Verb :=
  match table.lookup name with
  | some (.verb v) => some v
  | _ => none

/-- The meaning of an attribute in a scope: that of the first candidate that has one. -/
def classify (table : AnnotationTable) (imports : Imports) (a : Source.Attribute) :
    Option AnnotationKind :=
  (imports.candidates a.path.segments a.path.leadingColon).findSome? table.lookup

end AnnotationTable
end TraitClient
