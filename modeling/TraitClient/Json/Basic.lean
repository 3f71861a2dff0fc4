import TraitClient.Decimal.Shortest

/-!
# JSON values

An object is a list of entries in the order in which they are written.  A number is an integer
where its text is one that fits 64 bits, else a double.
-/
namespace TraitClient

inductive Json
  | null
  | bool (b : Bool)
  | int (n : Int)
  | float (x : Float)
  | str (s : String)
  | arr (items : List Json)
  | obj (entries : List (String × Json))
  deriving Inhabited

namespace Json

/-- The value of the last entry of that name. -/
def get? : Json → String → Option Json
  | .obj entries, key => (entries.reverse.find? (·.1 == key)).map (·.2)
  | _, _ => none

end Json
end TraitClient
