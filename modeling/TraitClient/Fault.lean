import TraitClient.Annotation.Kind
import TraitClient.Annotation.Argument
import TraitClient.TypeResolution
import TraitClient.Model

/-!
# Faults of service traits

Everything that can be wrong with a service trait before code is generated for it.  Each fault
breaks one rule and has one text.
-/
namespace TraitClient

inductive Rule
  | annotationShape
  | pathPlaceholders
  | bodyCardinality
  | bodyVerb
  | bodyFieldExclusive
  | multipartShape
  | formShape
  | fieldMapType
  | signature
  | textResponse
  deriving Repr, DecidableEq

def Rule.title : Rule → String
  | .annotationShape => "malformed annotation"
  | .pathPlaceholders => "path placeholders"
  | .bodyCardinality => "body cardinality"
  | .bodyVerb => "body/verb compatibility"
  | .bodyFieldExclusive => "body/field exclusivity"
  | .multipartShape => "multipart shape"
  | .formShape => "form-url-encoded shape"
  | .fieldMapType => "field map type"
  | .signature => "signature shape"
  | .textResponse => "text response"

inductive BindingFault
  | notForParameters (kind : AnnotationKind)
  | several
  | argument (error : ArgumentError)
  | bodyArgument (error : ArgumentError)
  | fieldMapArgument (error : ArgumentError)

def BindingFault.message : BindingFault → String
  | .notForParameters kind => kind.label ++ " is not a parameter attribute"
  | .several => "at most one binding attribute is allowed"
  | .argument error => error.message
  | .bodyArgument error => "#[body] " ++ error.message
  | .fieldMapArgument error => "#[field_map] " ++ error.message

inductive Fault
  | headersArgument (error : ArgumentError)
  | headerShape (raw : String)
  | notForMethods (kind : AnnotationKind)
  | severalVerbs (verbs : List Verb)
  | verbArgument (name : String) (error : ArgumentError)
  | parameterPattern
  | parameterBinding (parameter : String) (fault : BindingFault)
  | genericTrait
  | parameterType (parameter : String) (error : TypeError)
  | returnType (error : TypeError)
  | repeatedPathKey (key : String)
  | optionalPathParameter (parameter : String)
  | unboundPlaceholders (template : String) (names : List String)
  | unknownPathKeys (template : String) (keys : List String)
  | severalBodies (parameters : List String)
  | bodyOnVerb (binding : BindingKind) (verb : Verb)
  | bodyWithFields
  | partsWithoutMultipart
  | multipartOnVerb (verb : Verb)
  | multipartWithForm
  | multipartWithFields
  | multipartEmpty
  | partsWithBody
  | multipartBodyType (parameter : String) (type : TypeRef)
  | formOnVerb (verb : Verb)
  | formWithBody
  | fieldMapType (parameter : String) (type : TypeRef)
  | notAsync
  | notByReference
  | genericMethod
  | noResult (type : TypeRef)
  | borrowedSuccess (type : TypeRef)
  | textSuccessType (type : TypeRef)
  | textWithoutSuccess

namespace Fault

def rule : Fault → Rule
  | .headersArgument _ => .annotationShape
  | .headerShape _ => .annotationShape
  | .notForMethods _ => .annotationShape
  | .severalVerbs _ => .annotationShape
  | .verbArgument _ _ => .annotationShape
  | .parameterPattern => .annotationShape
  | .parameterBinding _ _ => .annotationShape
  | .genericTrait => .signature
  | .parameterType _ _ => .signature
  | .returnType _ => .signature
  | .repeatedPathKey _ => .pathPlaceholders
  | .optionalPathParameter _ => .pathPlaceholders
  | .unboundPlaceholders _ _ => .pathPlaceholders
  | .unknownPathKeys _ _ => .pathPlaceholders
  | .severalBodies _ => .bodyCardinality
  | .bodyOnVerb _ _ => .bodyVerb
  | .bodyWithFields => .bodyFieldExclusive
  | .partsWithoutMultipart => .multipartShape
  | .multipartOnVerb _ => .multipartShape
  | .multipartWithForm => .multipartShape
  | .multipartWithFields => .multipartShape
  | .multipartEmpty => .multipartShape
  | .partsWithBody => .multipartShape
  | .multipartBodyType _ _ => .multipartShape
  | .formOnVerb _ => .formShape
  | .formWithBody => .formShape
  | .fieldMapType _ _ => .fieldMapType
  | .notAsync => .signature
  | .notByReference => .signature
  | .genericMethod => .signature
  | .noResult _ => .signature
  | .borrowedSuccess _ => .signature
  | .textSuccessType _ => .textResponse
  | .textWithoutSuccess => .textResponse

def list (names : List String) : String := ", ".intercalate names

def attributeText : BindingKind → String
  | .path => "#[path]"
  | .query => "#[query]"
  | .header => "#[header]"
  | .body => "#[body]"
  | .field => "#[field]"
  | .fieldMap => "#[field_map]"
  | .part => "#[part]"

def notSupportedFor (what : String) (verb : Verb) : String :=
  what ++ " is not supported for " ++ verb.text ++ " requests"

def detail : Fault → String
  | .headersArgument error => "#[headers] " ++ error.message
  | .headerShape raw => "header \"" ++ raw ++ "\" is not of the form \"Key: Value\""
  | .notForMethods kind => kind.label ++ " is not a method attribute"
  | .severalVerbs verbs => "multiple HTTP verb annotations (" ++ list (verbs.map Verb.text) ++ ")"
  | .verbArgument name error => "#[" ++ name ++ "] " ++ error.message
  | .parameterPattern => "parameter patterns must be plain identifiers"
  | .parameterBinding parameter fault => "parameter `" ++ parameter ++ "`: " ++ fault.message
  | .genericTrait => "generic service traits are not supported"
  | .parameterType parameter error => "parameter `" ++ parameter ++ "`: " ++ error.message
  | .returnType error => "return type: " ++ error.message
  | .repeatedPathKey key => "path key \"" ++ key ++ "\" is bound more than once"
  | .optionalPathParameter parameter => "path parameter `" ++ parameter ++ "` cannot be optional"
  | .unboundPlaceholders template names =>
    "path \"" ++ template ++ "\" has placeholders without a #[path] parameter: " ++ list names
  | .unknownPathKeys template keys =>
    "#[path] keys not found in path \"" ++ template ++ "\": " ++ list keys
  | .severalBodies parameters =>
    "only one #[body] parameter is allowed, found " ++ list parameters
  | .bodyOnVerb binding verb => notSupportedFor (attributeText binding) verb
  | .bodyWithFields => "#[body] cannot be combined with #[field] or #[field_map]"
  | .partsWithoutMultipart => "#[part] parameters require #[multipart]"
  | .multipartOnVerb verb => notSupportedFor "#[multipart]" verb
  | .multipartWithForm => "#[multipart] cannot be combined with #[form_url_encoded]"
  | .multipartWithFields =>
    "#[field] and #[field_map] are not supported with #[multipart], use #[part]"
  | .multipartEmpty => "#[multipart] requires at least one #[part] or a #[body] multipart form"
  | .partsWithBody => "#[part] cannot be combined with #[body]"
  | .multipartBodyType parameter type =>
    "#[body] `" ++ parameter ++ "` of a multipart request must be an owned multipart form, found "
      ++ type.display
  | .formOnVerb verb => notSupportedFor "#[form_url_encoded]" verb
  | .formWithBody => "#[form_url_encoded] cannot be combined with #[body]"
  | .fieldMapType parameter type =>
    "#[field_map] parameter `" ++ parameter ++ "` must be a map type, found " ++ type.display
  | .notAsync => "method must be `async fn`"
  | .notByReference => "method must take `&self`"
  | .genericMethod => "generic methods are not supported"
  | .noResult type => "return type must be a `Result<T, E>`, found " ++ type.display
  | .borrowedSuccess type => "success type " ++ type.display ++ " cannot be a reference"
  | .textSuccessType type =>
    "#[text_response] requires a `String` success type, found " ++ type.display
  | .textWithoutSuccess => "#[text_response] requires a `String` success type"

end Fault

/-- A fault of a method; the method is empty where the trait itself is at fault. -/
structure Violation where
  interface : String
  method : String
  fault : Fault

def Violation.message (v : Violation) : String :=
  v.interface ++ "::" ++ v.method ++ ": " ++ v.fault.detail ++ " (" ++ v.fault.rule.title ++ ")"

end TraitClient
