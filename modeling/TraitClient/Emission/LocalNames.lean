import TraitClient.Model

/-!
# Local names

A local variable of a generated body is its base name with as few underscores behind it as keep it
apart from the parameters and from the locals before it.
-/
namespace TraitClient

namespace LocalNames

/-- The name with underscores that is not taken; one more name than is taken is tried. -/
def freshFrom (taken : List String) : Nat → String → String
  | 0, name => name
  | fuel + 1, name => if taken.contains name then freshFrom taken fuel (name ++ "_") else name

def fresh (taken : List String) (base : String) : String := freshFrom taken (taken.length + 1) base

def freshAll (taken : List String) : List String → List String
  | [] => []
  | base :: rest =>
    let name := fresh taken base
    name :: freshAll (name :: taken) rest

end LocalNames

structure Locals where
  client : String
  url : String
  request : String
  response : String
  value : String
  fields : String
  form : String
  part : String
  deriving Repr

def Locals.bases : List String :=
  ["client", "url", "request", "response", "value", "fields", "form", "part"]

def Locals.ofMethod (m : Method) : Locals :=
  match LocalNames.freshAll (m.parameters.map (·.name)) Locals.bases with
  | [client, url, request, response, value, fields, form, part] =>
    { client, url, request, response, value, fields, form, part }
  | _ =>
    { client := "client", url := "url", request := "request", response := "response",
      value := "value", fields := "fields", form := "form", part := "part" }

end TraitClient
