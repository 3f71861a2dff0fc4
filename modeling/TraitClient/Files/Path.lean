/-!
# File paths

Paths are texts.  Repeated slashes, a slash at the end and `.` inside of a path count for nothing
when paths are compared or taken apart, but stay in the text.
-/
namespace TraitClient

inductive PathComponent
  | root
  | current
  | parent
  | normal (name : String)
  deriving Repr, DecidableEq

namespace FilePath

def splitSlashes : List Char → List (List Char)
  | [] => [[]]
  | '/' :: rest => [] :: splitSlashes rest
  | c :: rest =>
    match splitSlashes rest with
    | [] => [[c]]
    | piece :: pieces => (c :: piece) :: pieces

def component? (piece : List Char) : Option PathComponent :=
  match piece with
  | [] => none
  | ['.'] => none
  | ['.', '.'] => some .parent
  | piece => some (.normal (String.ofList piece))

/-- A `.` counts only at the start of a relative path. -/
def components (path : String) : List PathComponent :=
  let s := path.toList
  let pieces := splitSlashes s
  let start : List PathComponent :=
    match s with
    | '/' :: _ => [.root]
    | _ => if pieces.head? = some ['.'] then [.current] else []
  start ++ pieces.filterMap component?

/-- A path below another one, which an absolute path replaces. -/
def join (base item : String) : String :=
  if base.isEmpty || "/".toList.isPrefixOf item.toList then item
  else if "/".toList.isSuffixOf base.toList then base ++ item
  else base ++ "/" ++ item

def trimReversed : List Char → List Char
  | ['/'] => ['/']
  | '/' :: rest => trimReversed rest
  | ['.', '/'] => ['/']
  | '.' :: '/' :: rest => trimReversed rest
  | s => s

def parent? (path : String) : Option String :=
  match trimReversed path.toList.reverse with
  | [] => none
  | ['/'] => none
  | s =>
    let rest := s.dropWhile (· != '/')
    some (String.ofList (trimReversed rest).reverse)

def fileName? (path : String) : Option String :=
  match (components path).getLast? with
  | some (.normal name) => some name
  | _ => none

/-- A name cut before its last dot, unless that is its first character, and what follows the dot. -/
def splitExtension (name : String) : String × Option String :=
  let reversed := name.toList.reverse
  let extension := reversed.takeWhile (· != '.')
  match reversed.drop extension.length with
  | '.' :: stem =>
    if stem.isEmpty then (name, none)
    else (String.ofList stem.reverse, some (String.ofList extension.reverse))
  | _ => (name, none)

def stem? (path : String) : Option String := (fileName? path).map fun n => (splitExtension n).1

def extension? (path : String) : Option String :=
  (fileName? path).bind fun n => (splitExtension n).2

/-- The path with another extension; it stays as it is if it ends in no name. -/
def withExtension (path extension : String) : String :=
  match fileName? path with
  | none => path
  | some name =>
    let trimmed := trimReversed path.toList.reverse
    let directory := (trimmed.drop name.length).reverse
    String.ofList directory ++ (splitExtension name).1 ++ "." ++ extension

def stripPrefix? (path base : List PathComponent) : Option (List PathComponent) :=
  match base, path with
  | [], path => some path
  | b :: bs, p :: ps => if b = p then stripPrefix? ps bs else none
  | _ :: _, [] => none

def normalName? : PathComponent → Option String
  | .normal name => some name
  | _ => none

end FilePath

/-- The module of a file below a source root: its directories and its stem.  `mod.rs` is its
directory, and `lib.rs` and `main.rs` at the root are the crate. -/
def modulePathOf (path root : String) : List String :=
  match FilePath.stripPrefix? (FilePath.components path) (FilePath.components root) with
  | none => []
  | some relative =>
    let directories := relative.dropLast.filterMap FilePath.normalName?
    let stem := match relative.getLast? with
      | some (.normal name) => (FilePath.splitExtension name).1
      | _ => ""
    let isRoot := directories.isEmpty && (stem == "lib" || stem == "main")
    if stem == "mod" || isRoot then directories else directories ++ [stem]

end TraitClient
