import TraitClient.Text.LetterCase

/-!
# Snake case

An uppercase letter becomes lowercase, after an underscore where it starts a word: behind a
lowercase letter or a digit, or behind an uppercase letter if a lowercase one follows.
-/
namespace TraitClient.Naming

open Text

/-- Whether an uppercase letter between `previous` and `next` starts a word. -/
def startsWord (previous next : Option Char) : Bool :=
  match previous with
  | none => false
  | some p =>
    isLowercase p || p.isDigit || (isUppercase p && (next.map isLowercase).getD false)

def snakeFrom (previous : Option Char) : List Char → List Char
  | [] => []
  | c :: rest =>
    let written :=
      if isUppercase c then
        (if startsWord previous rest.head? then ['_'] else []) ++ lowercase c
      else [c]
    written ++ snakeFrom (some c) rest

/-- The snake case of a name: `HTTPApi` becomes `http_api`. -/
def snakeCase (name : String) : String := String.ofList (snakeFrom none name.toList)

end TraitClient.Naming
