import TraitClient.Client.Error
import TraitClient.Json.Reader
import TraitClient.Text.Charset

/-!
# Responses

A response has a status, perhaps a content type, and a body of bytes.  Its text is read in the
encoding that the content type names.
-/
namespace TraitClient

/-! ## Content types -/

namespace ContentType

def isTokenChar (c : Char) : Bool := c.isAlphanum || "!#$%&'*+-.^_`|~".toList.contains c

def isToken (s : List Char) : Bool := !s.isEmpty && s.all isTokenChar

def skipBlanks (s : List Char) : List Char := s.dropWhile fun c => c == ' ' || c == '\t'

/-- The rest of a quoted value after its opening quote. -/
def quoted? : List Char → Option (List Char × List Char)
  | '"' :: rest => some ([], rest)
  | '\\' :: c :: rest => (quoted? rest).map fun (v, r) => (c :: v, r)
  | c :: rest => (quoted? rest).map fun (v, r) => (c :: v, r)
  | [] => none

def parameters? : Nat → List Char → Option (List (String × String))
  | 0, _ => none
  | fuel + 1, s =>
    match skipBlanks s with
    | [] => some []
    | ';' :: rest =>
      let rest := skipBlanks rest
      if rest.isEmpty then some []
      else
        let name := rest.takeWhile isTokenChar
        match name.isEmpty, rest.dropWhile isTokenChar with
        | false, '=' :: value => do
          let (value, rest) ← match value with
            | '"' :: value => quoted? value
            | value =>
              let v := value.takeWhile isTokenChar
              if v.isEmpty then none else some (v, value.dropWhile isTokenChar)
          let more ← parameters? fuel rest
          some ((String.ofList (name.map Char.toLower), String.ofList value) :: more)
        | _, _ => none
    | _ => none

/-- The parameters of a content type; none if it is ill-formed. -/
def parametersOf? (text : String) : Option (List (String × String)) :=
  let s := text.toList
  let main := s.takeWhile (· != '/')
  match s.dropWhile (· != '/') with
  | '/' :: rest =>
    let sub := rest.takeWhile isTokenChar
    if isToken main && isToken sub then parameters? (s.length + 1) (rest.dropWhile isTokenChar)
    else none
  | _ => none

/-- The encoding that a content type names; UTF-8 if it names none that is known. -/
def charset (text : Option String) : Text.Charset :=
  let parameters := (text.bind parametersOf?).getD []
  let label := (parameters.find? (·.1 == "charset")).map (·.2)
  (label.bind Text.Charset.ofLabel?).getD .utf8

end ContentType

/-! ## Responses -/

structure Response where
  status : Nat
  contentType : Option String
  body : List UInt8
  deriving Repr

namespace Response

def isSuccess (r : Response) : Bool := 200 ≤ r.status && r.status < 300

def text (r : Response) : String := (ContentType.charset r.contentType).decode r.body

def withoutForbiddenBody (r : Response) : Response :=
  if r.status < 200 || r.status = 204 || r.status = 304 then { r with body := [] } else r

def checked (r : Response) : Except ClientError Response :=
  if r.isSuccess then .ok r else .error (.status r.status r.text)

def json (r : Response) : Except ClientError Json :=
  match (String.fromUTF8? ⟨r.body.toArray⟩).bind Json.ofText? with
  | some v => .ok v
  | none => .error (.http .undecodableBody)

end Response
end TraitClient
