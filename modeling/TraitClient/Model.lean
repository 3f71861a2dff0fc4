import TraitClient.Naming
import TraitClient.Template
import TraitClient.Text.Blank

/-!
# Service interfaces

The resolved description of an annotated service trait: its methods, the role of each parameter,
and the types as far as code generation has to know them.
-/
namespace TraitClient

/-! ## HTTP methods -/

inductive Verb
  | get
  | post
  | put
  | delete
  | patch
  | options
  | head
  deriving Repr, DecidableEq

namespace Verb

def all : List Verb := [.get, .post, .put, .delete, .patch, .options, .head]

def text : Verb → String
  | .get => "GET"
  | .post => "POST"
  | .put => "PUT"
  | .delete => "DELETE"
  | .patch => "PATCH"
  | .options => "OPTIONS"
  | .head => "HEAD"

def allowsBody : Verb → Bool
  | .post => true
  | .put => true
  | .patch => true
  | _ => false

end Verb

/-! ## Types -/

/-- A type.  `path` is its spelling in the source, `qualifiedName` the path that imports make of it.
An optional type is the type itself with `nullable` set. -/
structure TypeRef where
  qualifiedName : String
  path : String
  arguments : List TypeRef
  nullable : Bool
  byRef : Bool
  lifetime : Option String
  deriving Repr, BEq, Inhabited

namespace TypeRef

def unitName : String := "()"
def sliceName : String := "[]"

def listNames : List String := ["std::vec::Vec", "alloc::vec::Vec", sliceName]

def mapNames : List String :=
  ["std::collections::HashMap", "std::collections::hash_map::HashMap",
    "std::collections::BTreeMap", "std::collections::btree_map::BTreeMap",
    "alloc::collections::BTreeMap", "indexmap::IndexMap"]

def textNames : List String := ["std::string::String", "alloc::string::String", "str"]

def scalarNames : List String :=
  ["bool", "char", "i8", "i16", "i32", "i64", "i128", "isize", "u8", "u16", "u32", "u64", "u128",
    "usize", "f32", "f64"]

/-- Whether a name is built in, and so means the same in every module. -/
def isPrimitiveName (name : String) : Bool := name == "str" || scalarNames.contains name

def named (qualifiedName path : String) : TypeRef :=
  { qualifiedName, path, arguments := [], nullable := false, byRef := false, lifetime := none }

def unit : TypeRef := named unitName unitName

def slice (element : TypeRef) : TypeRef := { named sliceName sliceName with arguments := [element] }

def isUnit (t : TypeRef) : Bool := t.qualifiedName == unitName && !t.nullable

def isSlice (t : TypeRef) : Bool := t.qualifiedName == sliceName

def isList (t : TypeRef) : Bool := listNames.contains t.qualifiedName && t.arguments.length == 1

def isMap (t : TypeRef) : Bool := mapNames.contains t.qualifiedName && 2 ≤ t.arguments.length

def isText (t : TypeRef) : Bool := textNames.contains t.qualifiedName

/-- Whether a multipart form takes the type as a text field. -/
def isScalar (t : TypeRef) : Bool := t.isText || scalarNames.contains t.qualifiedName

def element? (t : TypeRef) : Option TypeRef := if t.isList then t.arguments.head? else none

/-- What stands behind the last `::` of a reversed text, reversed as well. -/
def lastSegmentReversed : List Char → List Char
  | ':' :: ':' :: _ => []
  | c :: rest => c :: lastSegmentReversed rest
  | [] => []

/-- Whether the last segment of the path ends in `Result` and has a success argument. -/
def isResultLike (t : TypeRef) : Bool :=
  let lastReversed := lastSegmentReversed t.path.toList.reverse
  "Result".toList.reverse.isPrefixOf lastReversed && !t.arguments.isEmpty && !t.nullable

mutual

def display : TypeRef → String
  | ⟨qualifiedName, path, arguments, nullable, byRef, lifetime⟩ =>
    let reference :=
      if byRef then
        "&" ++ (match lifetime with
          | some l => "'" ++ l ++ " "
          | none => "")
      else ""
    let base :=
      if qualifiedName == sliceName then "[" ++ displayFirst arguments ++ "]"
      else if arguments.isEmpty then path
      else path ++ "<" ++ displayAll arguments ++ ">"
    if nullable then "Option<" ++ reference ++ base ++ ">" else reference ++ base

def displayFirst : List TypeRef → String
  | [] => ""
  | t :: _ => t.display

def displayAll : List TypeRef → String
  | [] => ""
  | [t] => t.display
  | t :: ts => t.display ++ ", " ++ displayAll ts

end

end TypeRef

/-! ## Parameters -/

inductive Binding
  | path (key : String)
  | query (key : String)
  | header (key : String)
  | body
  | field (key : String)
  | fieldMap
  | part (key : String)
  | unbound
  deriving Repr, DecidableEq

structure Parameter where
  name : String
  type : TypeRef
  binding : Binding
  deriving Repr, BEq

namespace Parameter

def isBody (p : Parameter) : Bool :=
  match p.binding with
  | .body => true
  | _ => false

def isPart (p : Parameter) : Bool :=
  match p.binding with
  | .part _ => true
  | _ => false

def isFormField (p : Parameter) : Bool :=
  match p.binding with
  | .field _ => true
  | .fieldMap => true
  | _ => false

def pathKey? (p : Parameter) : Option String :=
  match p.binding with
  | .path key => some key
  | _ => none

end Parameter

/-! ## Methods -/

structure StaticHeader where
  name : String
  value : String
  deriving Repr, DecidableEq

/-- Splits `Key: Value` at the first colon; the key must not be blank. -/
def StaticHeader.ofText? (raw : String) : Option StaticHeader :=
  let s := raw.toList
  let name := s.takeWhile (· != ':')
  match s.dropWhile (· != ':') with
  | ':' :: value =>
    let name := Text.trim name
    if name.isEmpty then none
    else some ⟨String.ofList name, String.ofList (Text.trim value)⟩
  | _ => none

structure Modifiers where
  multipart : Bool := false
  formUrlEncoded : Bool := false
  textResponse : Bool := false
  headers : List StaticHeader := []
  deriving Repr, DecidableEq

structure SignatureShape where
  isAsync : Bool
  hasRefSelf : Bool
  hasGenerics : Bool
  deriving Repr, DecidableEq

/-- A trait method with an HTTP method.  `declaredIn` is the trait that declares it. -/
structure Method where
  name : String
  declaredIn : String
  verb : Verb
  template : String
  parameters : List Parameter
  returnType : TypeRef
  modifiers : Modifiers
  signature : SignatureShape
  deriving Repr, BEq

namespace Method

def bodies (m : Method) : List Parameter := m.parameters.filter (·.isBody)

def parts (m : Method) : List Parameter := m.parameters.filter (·.isPart)

def formFields (m : Method) : List Parameter := m.parameters.filter (·.isFormField)

def successType? (m : Method) : Option TypeRef :=
  if m.returnType.isResultLike then m.returnType.arguments.head? else none

def hasUnbound (m : Method) : Bool := m.parameters.any fun p => p.binding = .unbound

end Method

/-! ## Interfaces -/

inductive Visibility
  /-- `pub`. -/
  | everywhere
  /-- Anything less. -/
  | crateOnly
  deriving Repr, DecidableEq

/-- A service trait.  `supertraits` are the scanned ones as `crate::` paths, depth first. -/
structure Interface where
  modulePath : List String
  name : String
  visibility : Visibility
  sourceFile : String
  methods : List Method
  supertraits : List String
  deriving Repr, BEq

/-- `crate::a::b::Name`. -/
def cratePath (modulePath : List String) (name : String) : String :=
  "::".intercalate ("crate" :: modulePath ++ [name])

namespace Interface

def implName (i : Interface) : String := i.name ++ "Impl"

def factoryName (i : Interface) : String := "create_" ++ Naming.snakeCase i.name

def fileName (i : Interface) : String := Naming.snakeCase i.name ++ "_impl.rs"

def qualifiedName (i : Interface) : String := cratePath i.modulePath i.name

end Interface
end TraitClient
