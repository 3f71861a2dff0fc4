import TraitClient.Annotation.Kind

/-!
# Types of the runtime

The multipart form and the multipart part, by all names that generated code can use them under.
-/
namespace TraitClient

structure RuntimeTypes where
  forms : List String
  parts : List String
  deriving Repr

namespace RuntimeTypes

def spellings (runtime name : String) : List String :=
  ["reqwest::multipart::" ++ name, runtime ++ "::" ++ name,
    runtime ++ "::reqwest::multipart::" ++ name]

/-- The types below a runtime path; `::` in front of it counts for nothing. -/
def ofPath (path : String) : RuntimeTypes :=
  let runtime := withoutLeadingColons path
  ⟨spellings runtime "Form", spellings runtime "Part"⟩

def isForm (types : RuntimeTypes) (t : TypeRef) : Bool := types.forms.contains t.qualifiedName

def isPart (types : RuntimeTypes) (t : TypeRef) : Bool := types.parts.contains t.qualifiedName

end RuntimeTypes
end TraitClient
