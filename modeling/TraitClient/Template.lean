import TraitClient.Text.Word

/-!
# Path templates

A template is text with placeholders: words between braces, as in `/posts/{id}`.  Braces that do
not enclose a word are text.
-/
namespace TraitClient

inductive TemplatePiece
  | text (s : String)
  | placeholder (name : String)
  deriving Repr, DecidableEq

namespace Template

/-- The word of a placeholder at the front, and what follows its closing brace. -/
def placeholderAt? : List Char → Option (List Char × List Char)
  | '\x7b' :: rest =>
    let word := rest.takeWhile Text.isWord
    match rest.dropWhile Text.isWord with
    | '\x7d' :: after => if word.isEmpty then none else some (word, after)
    | _ => none
  | _ => none

theorem placeholderAt?_length {s word after : List Char}
    (h : placeholderAt? s = some (word, after)) : after.length < s.length := by
  unfold placeholderAt? at h
  split at h
  · rename_i rest
    simp only at h
    split at h
    · rename_i tail htail
      split at h
      · cases h
      · cases h
        have := (List.dropWhile_sublist Text.isWord (l := rest)).length_le
        rw [htail] at this
        simp only [List.length_cons] at this ⊢
        omega
    · cases h
  · cases h

/-- Where a placeholder stands in a text, in bytes, and its word. -/
structure Capture where
  start : Nat
  stop : Nat
  name : String
  deriving Repr, DecidableEq

/-- The placeholders in `s`, which begins at an offset of a text.  The search goes on behind the
closing brace of each, so that none begins inside of another. -/
def capturesFrom (offset : Nat) (s : List Char) : List Capture :=
  match _h : placeholderAt? s with
  | some (word, after) =>
    let name := String.ofList word
    let stop := offset + (name.utf8ByteSize + 2)
    ⟨offset, stop, name⟩ :: capturesFrom stop after
  | none =>
    match s with
    | [] => []
    | c :: rest => capturesFrom (offset + c.utf8Size) rest
termination_by s.length
decreasing_by
  · exact placeholderAt?_length _h
  · simp

def captures (template : String) : List Capture := capturesFrom 0 template.toList

def addName (names : List String) (c : Capture) : List String :=
  if names.contains c.name then names else names ++ [c.name]

/-- The words of all placeholders, each once and in the order in which they come first. -/
def placeholders (template : String) : List String := (captures template).foldl addName []

/-- The pieces of a template up to an offset. -/
structure Split where
  pieces : List TemplatePiece
  last : Nat

/-- The pieces with the text up to a further offset, if there is any. -/
def Split.upTo (done : Split) (template : String) (stop : Nat) : List TemplatePiece :=
  if done.last < stop then
    done.pieces ++ [.text (String.Pos.Raw.extract template ⟨done.last⟩ ⟨stop⟩)]
  else done.pieces

def Split.add (template : String) (done : Split) (c : Capture) : Split :=
  ⟨done.upTo template c.start ++ [.placeholder c.name], c.stop⟩

def pieces (template : String) : List TemplatePiece :=
  ((captures template).foldl (Split.add template) ⟨[], 0⟩).upTo template template.utf8ByteSize

end Template
end TraitClient
