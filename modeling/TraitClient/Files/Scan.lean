import TraitClient.Files.Tree

/-!
# Scanning for source files

All files with the extension `rs` below a root, except those in hidden directories, in `target`, and
below excluded paths.  Links are not followed, but a link to a file counts as one.
-/
namespace TraitClient.Scan

/-- Whether a name is left out, with everything below it. -/
def isSkippedName (name : String) : Bool := name == "target" || ".".toList.isPrefixOf name.toList

/-- The files below a directory.  `path` is how the directory is written, `resolved` where it is if
the root is resolved, and `place` where it is in the tree. -/
def filesBelow (t : FileTree) (excluded : List Location) :
    Nat → String → Location → Location → List String
  | 0, _, _, _ => []
  | fuel + 1, path, resolved, place =>
    (t.names place).flatMap fun name =>
      let here := resolved ++ [name]
      if isSkippedName name || excluded.any (·.isPrefixOf here) then []
      else
        let file := FilePath.join path name
        match t.get? (place ++ [name]) with
        | some .directory => filesBelow t excluded fuel file here (place ++ [name])
        | _ =>
          if t.isFile file && FilePath.extension? file == some "rs" then [file] else []

def nameKey : PathComponent → String
  | .root => "/"
  | .current => "."
  | .parent => ".."
  | .normal name => name

def keysBefore : List String → List String → Bool
  | [], _ => true
  | _ :: _, [] => false
  | a :: as, b :: bs => if a == b then keysBefore as bs else a < b

def pathBefore (a b : String) : Bool :=
  keysBefore ((FilePath.components a).map nameKey) ((FilePath.components b).map nameKey)

/-- The source files below a root in the order of their paths; none if the root is no directory. -/
def sourceFiles? (t : FileTree) (root : String) (exclude : List String) : Option (List String) :=
  match t.entry? root with
  | some (place, .directory) =>
    let excluded := exclude.filterMap t.canonical?
    some ((filesBelow t excluded (t.entries.length + 1) root place place).mergeSort pathBefore)
  | _ => none

end TraitClient.Scan
