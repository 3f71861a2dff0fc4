import TraitClient.Code.Syntax
import TraitClient.Emission.LocalNames
import TraitClient.Service.BodyEncoding

/-!
# Bodies of generated methods

The request is built by statements in a fixed order: static headers, query, headers, body.  Then it
is sent, and the response is read as the success type says.
-/
namespace TraitClient.MethodBody

open Code (Expr Statement)

structure Context where
  method : Method
  locals : Locals

def Context.ofMethod (m : Method) : Context := ⟨m, Locals.ofMethod m⟩

/-- `e.to_string()`. -/
def toText (e : Expr) : Expr := .method e "to_string" []

/-- `e.iter()`. -/
def iterate (e : Expr) : Expr := .method e "iter" []

section

variable (c : Context)

/-- `request = request.name(arguments);`. -/
def extend (name : String) (arguments : List Expr) : Statement :=
  .assign c.locals.request (.method (.var c.locals.request) name arguments)

def staticHeaders : List Statement :=
  c.method.modifiers.headers.map fun h => extend c "header" [.string h.name, .string h.value]

/-- One statement for each value of a parameter: for the one it has, for all elements of a list, for
none if it is absent. -/
def eachValue (p : Parameter) (apply : Expr → Statement) : Statement :=
  let value := Expr.var c.locals.value
  let parameter := Expr.var p.name
  match p.type.isList || p.type.isSlice, p.type.nullable with
  | true, false => .forEach c.locals.value (iterate parameter) [apply value]
  | true, true =>
    .forEach c.locals.value
      (.method (iterate parameter) "flat_map" [.closure "values" (iterate (.var "values"))])
      [apply value]
  | false, true => .ifSome c.locals.value (.borrow parameter) [apply value]
  | false, false => apply parameter

def queryMap (p : Parameter) : Statement :=
  if p.type.nullable then
    .ifSome c.locals.value (.borrow (.var p.name)) [extend c "query" [.var c.locals.value]]
  else extend c "query" [.borrow (.var p.name)]

def queryPair (key : String) (value : Expr) : Statement :=
  extend c "query" [.borrow (.singleton (.pair (.string key) (toText value)))]

def query : List Statement :=
  c.method.parameters.filterMap fun p => match p.binding with
    | .query key => some (if p.type.isMap then queryMap c p else eachValue c p (queryPair c key))
    | _ => none

def headers : List Statement :=
  c.method.parameters.filterMap fun p => match p.binding with
    | .header key =>
      some (eachValue c p fun value => extend c "header" [.string key, toText value])
    | _ => none

/-! ## Collections of fields -/

/-- A collection of the runtime; inserting into JSON fields can fail. -/
structure Collection where
  type : String
  canFail : Bool

def jsonFields : Collection := ⟨"JsonFields", true⟩
def formFields : Collection := ⟨"FormFields", false⟩

/-- `fields.name(arguments);`. -/
def collect (collection : Collection) (name : String) (arguments : List Expr) : Statement :=
  let call := Expr.method (.var c.locals.fields) name arguments
  .run (if collection.canFail then .propagate call else call)

def insertField (collection : Collection) (f : FieldSpec) : Statement :=
  if f.nullable then
    .ifSome c.locals.value (.borrow (.var f.parameter))
      [collect c collection "insert" [.string f.key, .var c.locals.value]]
  else collect c collection "insert" [.string f.key, .borrow (.var f.parameter)]

def extendByMap (collection : Collection) (m : MapSpec) : Statement :=
  if m.nullable then
    .ifSome c.locals.value (.borrow (.var m.parameter))
      [collect c collection "extend" [iterate (.var c.locals.value)]]
  else collect c collection "extend" [iterate (.var m.parameter)]

/-- Fills a collection: fields first, then maps. -/
def collectFields (collection : Collection) (fields : List FieldSpec) (maps : List MapSpec) :
    List Statement :=
  let statements := fields.map (insertField c collection) ++ maps.map (extendByMap c collection)
  .letValue (!statements.isEmpty) c.locals.fields (.call (.runtime [collection.type, "new"]) []) ::
    statements

/-! ## Multipart forms -/

/-- `form = form.name(key, value);`. -/
def extendForm (name : String) (key : String) (value : Expr) : Statement :=
  .assign c.locals.form (.method (.var c.locals.form) name [.string key, value])

def appendPart (s : PartSpec) : Statement :=
  let parameter := Expr.var s.parameter
  let value := Expr.var c.locals.value
  match s.kind, s.nullable with
  | .list, false =>
    .forEach c.locals.part parameter [extendForm c "part" s.key (.var c.locals.part)]
  | .list, true =>
    .forEach c.locals.part (.method (.method parameter "into_iter" []) "flatten" [])
      [extendForm c "part" s.key (.var c.locals.part)]
  | .raw, false => extendForm c "part" s.key parameter
  | .raw, true => .ifSome c.locals.value parameter [extendForm c "part" s.key value]
  | .scalar, false => extendForm c "text" s.key (toText parameter)
  | .scalar, true =>
    .ifSome c.locals.value (.borrow parameter) [extendForm c "text" s.key (toText value)]

/-! ## The whole body -/

def body : BodyEncoding → List Statement
  | .noBody => []
  | .jsonObject parameter => [extend c "json" [.borrow (.var parameter)]]
  | .jsonMap fields maps =>
    collectFields c jsonFields fields maps ++ [extend c "json" [.borrow (.var c.locals.fields)]]
  | .formUrlEncoded fields maps =>
    collectFields c formFields fields maps ++ [extend c "form" [.borrow (.var c.locals.fields)]]
  | .multipartForm parameter => [extend c "multipart" [.var parameter]]
  | .multipartParts parts =>
    .letValue true c.locals.form (.call (.runtime ["Form", "new"]) []) ::
      parts.map (appendPart c) ++ [extend c "multipart" [.var c.locals.form]]

def requestStatements (encoding : BodyEncoding) : List Statement :=
  staticHeaders c ++ query c ++ headers c ++ body c encoding

def escapeBraces (s : String) : String :=
  String.ofList <| s.toList.flatMap fun ch =>
    if ch = '\x7b' || ch = '\x7d' then [ch, ch] else [ch]

def placeholderParameter (name : String) : String :=
  ((c.method.parameters.find? fun p => p.pathKey? == some name).map (·.name)).getD name

def formatPiece : TemplatePiece → String
  | .text s => escapeBraces s
  | .placeholder _ => "\x7b\x7d"

def formatArgument? : TemplatePiece → Option Expr
  | .text _ => none
  | .placeholder name => some (.var (placeholderParameter c name))

/-- The path of the request: the template itself, or a format of it with the path parameters. -/
def endpoint : Expr :=
  let pieces := Template.pieces c.method.template
  let arguments := pieces.filterMap (formatArgument? c)
  if arguments.isEmpty then .string c.method.template
  else .borrow (.format (String.join (pieces.map formatPiece)) arguments)

def respond : List Statement :=
  let send := Expr.propagate (.await (.call (.runtime ["send"]) [.var c.locals.request]))
  let ok (e : Expr) : Statement := .result (.call (.var "Ok") [e])
  let read (name : String) : List Statement :=
    [.letValue false c.locals.response send,
      ok (.propagate (.await (.call (.runtime [name]) [.var c.locals.response])))]
  let isUnit := match c.method.successType? with
    | some t => t.isUnit
    | none => false
  if isUnit then [.run send, ok .unit]
  else if c.method.modifiers.textResponse then read "read_text"
  else read "read_json"

def statements (encoding : BodyEncoding) : List Statement :=
  let building := requestStatements c encoding
  .letPair c.locals.client c.locals.url
      (.propagate (.method (.field (.var "self") "context") "endpoint" [endpoint c])) ::
    .letValue (!building.isEmpty) c.locals.request
      (.method (.var c.locals.client) "request"
        [.runtime ["reqwest", "Method", c.method.verb.text], .var c.locals.url]) ::
    building ++ respond c

end

def function (m : Method) (encoding : BodyEncoding) : Code.Function :=
  { allowsUnused := m.hasUnbound
    comment := none
    visibility := none
    isAsync := true
    name := m.name
    takesSelf := true
    parameters := m.parameters.map fun p => (p.name, .model p.type)
    output := .model m.returnType
    body := statements (Context.ofMethod m) encoding }

end TraitClient.MethodBody
