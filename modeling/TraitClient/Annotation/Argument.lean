import TraitClient.Source.Syntax
import TraitClient.Source.Literal

/-!
# Arguments of attributes

Arguments are string literals: one, as in `#[path("id")]` or `#[path = "id"]`, or a list of them.
-/
namespace TraitClient

inductive LiteralFault
  | notString
  | trailingToken
  | missingComma
  deriving Repr, DecidableEq

def LiteralFault.message : LiteralFault → String
  | .notString => "expected string literal"
  | .trailingToken => "unexpected token"
  | .missingComma => "expected `,`"

inductive ArgumentError
  | notSingleString (fault : LiteralFault)
  | valueNotString
  | required (what : String)
  | takesNone
  | notStrings (fault : LiteralFault)
  | notList
  deriving Repr, DecidableEq

def ArgumentError.message : ArgumentError → String
  | .notSingleString fault => "expected a single string literal: " ++ fault.message
  | .valueNotString => "expected a string literal"
  | .required what => "requires " ++ what
  | .takesNone => "takes no arguments"
  | .notStrings fault => "expected string literals: " ++ fault.message
  | .notList => "expected a list of string literals"

namespace Source

def literalToken? : TokenTree → Option String
  | .literal text => Literal.value? text
  | _ => none

def singleString : Tokens → Except LiteralFault String
  | [] => .error .notString
  | t :: rest =>
    match literalToken? t with
    | none => .error .notString
    | some s => if rest.isEmpty then .ok s else .error .trailingToken

def isComma : TokenTree → Bool
  | .punct ',' _ => true
  | _ => false

/-- Strings with commas between them; one may follow the last. -/
def stringList : Tokens → Except LiteralFault (List String)
  | [] => .ok []
  | [t] =>
    match literalToken? t with
    | none => .error .notString
    | some s => .ok [s]
  | t :: c :: rest =>
    match literalToken? t with
    | none => .error .notString
    | some s =>
      if isComma c then do
        let more ← stringList rest
        .ok (s :: more)
      else .error .missingComma

namespace Attribute

def optionalString (a : Attribute) : Except ArgumentError (Option String) :=
  match a.arguments with
  | .none => .ok none
  | .list tokens =>
    if tokens.isEmpty then .ok none
    else match singleString tokens with
      | .ok s => .ok (some s)
      | .error fault => .error (.notSingleString fault)
  | .value (some s) => .ok (some s)
  | .value none => .error .valueNotString

def requiredString (a : Attribute) (what : String) : Except ArgumentError String := do
  match ← a.optionalString with
  | some s => .ok s
  | none => .error (.required what)

def nonEmptyString (a : Attribute) (what : String) : Except ArgumentError String := do
  let s ← a.requiredString what
  if s.isEmpty then .error (.required what) else .ok s

/-- The string, or a fallback for none and for the empty one. -/
def stringOr (a : Attribute) (fallback : String) : Except ArgumentError String := do
  match ← a.optionalString with
  | some s => .ok (if s.isEmpty then fallback else s)
  | none => .ok fallback

def noArguments (a : Attribute) : Except ArgumentError Unit :=
  match a.optionalString with
  | .ok none => .ok ()
  | _ => .error .takesNone

def strings (a : Attribute) : Except ArgumentError (List String) :=
  match a.arguments with
  | .list tokens =>
    match stringList tokens with
    | .ok found => .ok found
    | .error fault => .error (.notStrings fault)
  | _ => .error .notList

def displayName (a : Attribute) : String := a.path.segments.getLast?.getD ""

end Attribute
end Source
end TraitClient
