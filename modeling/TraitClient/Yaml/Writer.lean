import TraitClient.Json.Writer
import TraitClient.Yaml.Scalar

/-!
# Writing YAML

Values in block style.  Lists stand at the indent of the key that they belong to, and empty
containers are written with brackets.
-/
namespace TraitClient.Yaml

def endLine (s : List Char) : List Char := if s.getLast? = some '\n' then s else s ++ ['\n']

def plainText (indent : Nat) : Json → List Char
  | .str s => scalar indent s
  | v => v.compact.toList

mutual

def afterKey (indent : Nat) : Json → List Char
  | .arr [] => " []\n".toList
  | .obj [] => " \x7b\x7d\n".toList
  | .arr items => '\n' :: listItems indent false items
  | .obj entries => '\n' :: mapEntries (indent + 2) false entries
  | .null => " null\n".toList
  | .bool b => ' ' :: endLine (plainText (indent + 2) (.bool b))
  | .int n => ' ' :: endLine (plainText (indent + 2) (.int n))
  | .float x => ' ' :: endLine (plainText (indent + 2) (.float x))
  | .str s => ' ' :: endLine (plainText (indent + 2) (.str s))

def afterDash (indent : Nat) : Json → List Char
  | .arr [] => "[]\n".toList
  | .obj [] => "\x7b\x7d\n".toList
  | .arr items => listItems (indent + 2) true items
  | .obj entries => mapEntries (indent + 2) true entries
  | .null => "null\n".toList
  | .bool b => endLine (plainText (indent + 2) (.bool b))
  | .int n => endLine (plainText (indent + 2) (.int n))
  | .float x => endLine (plainText (indent + 2) (.float x))
  | .str s => endLine (plainText (indent + 2) (.str s))

/-- The items of a list; the first may stand on a line that has begun. -/
def listItems (indent : Nat) (onLine : Bool) : List Json → List Char
  | [] => []
  | v :: vs =>
    (if onLine then [] else spaces indent) ++ '-' :: ' ' :: afterDash indent v ++
      listItems indent false vs

def mapEntries (indent : Nat) (onLine : Bool) : List (String × Json) → List Char
  | [] => []
  | (key, v) :: rest =>
    (if onLine then [] else spaces indent) ++ scalar indent key ++ ':' :: afterKey indent v ++
      mapEntries indent false rest

end

def text (v : Json) : String :=
  String.ofList <| match v with
    | .arr (item :: items) => listItems 0 false (item :: items)
    | .obj (entry :: entries) => mapEntries 0 false (entry :: entries)
    | .arr [] => "[]\n".toList
    | .obj [] => "\x7b\x7d\n".toList
    | v => endLine (plainText 2 v)

end TraitClient.Yaml
