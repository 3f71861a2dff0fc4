import TraitClient.Files.Path

/-!
# Trees of files

A tree holds files, directories and symbolic links under absolute locations, which are lists of
names.  Operations take paths as programs write them, relative to a working directory, and either
succeed or leave the tree as it was.
-/
namespace TraitClient

/-- A place in the tree; the empty location is the root. -/
abbrev Location := List String

inductive Entry
  | file (content : List UInt8)
  | directory
  | link (target : String)
  deriving Repr, DecidableEq

structure FileTree where
  /-- Each location once. -/
  entries : List (Location × Entry)
  working : Location

namespace FileTree

def fresh (working : Location) : FileTree :=
  { entries := (List.range working.length).map fun n => (working.take (n + 1), .directory)
    working }

def get? (t : FileTree) (l : Location) : Option Entry :=
  if l.isEmpty then some .directory
  else (t.entries.find? fun e => e.1 == l).map (·.2)

def put (t : FileTree) (l : Location) (e : Entry) : FileTree :=
  { t with entries := (t.entries.filter fun old => old.1 != l) ++ [(l, e)] }

def drop (t : FileTree) (l : Location) : FileTree :=
  { t with entries := t.entries.filter fun e => !l.isPrefixOf e.1 }

def names (t : FileTree) (l : Location) : List String :=
  t.entries.filterMap fun e =>
    if l.isPrefixOf e.1 then
      match e.1.drop l.length with
      | [name] => some name
      | _ => none
    else none

/-! ## Looking paths up -/

/-- Where a path leads: to an entry, or to a name that a directory does not have. -/
inductive Lookup
  | found (l : Location) (e : Entry)
  | missing (l : Location)
  deriving Repr, DecidableEq

/-- The steps of a path.  A slash at its end asks for a directory, as `.` does. -/
def steps (path : String) : List String :=
  let pieces := (FilePath.splitSlashes path.toList).map String.ofList
  let named := pieces.filter (!·.isEmpty)
  if "/".toList.isSuffixOf path.toList then named ++ ["."] else named

def start (t : FileTree) (path : String) (base : Location) : Location :=
  let _ := t
  if "/".toList.isPrefixOf path.toList then [] else base

/-- Follows steps from a directory.  `fuel` bounds the steps, those of links among them, and
`links` how many links are followed. -/
def follow (t : FileTree) (followLast : Bool) :
    Nat → Nat → Location → List String → Option Lookup
  | 0, _, _, _ => none
  | _ + 1, _, base, [] => (t.get? base).map (.found base)
  | fuel + 1, links, base, step :: rest =>
    if step == "." then follow t followLast fuel links base rest
    else if step == ".." then follow t followLast fuel links base.dropLast rest
    else
      let here := base ++ [step]
      match t.get? here with
      | none => if rest.isEmpty then some (.missing here) else none
      | some .directory => follow t followLast fuel links here rest
      | some (.file content) => if rest.isEmpty then some (.found here (.file content)) else none
      | some (.link target) =>
        if rest.isEmpty && !followLast then some (.found here (.link target))
        else if links = 0 || target.isEmpty then none
        else follow t followLast fuel (links - 1) (t.start target base) (steps target ++ rest)

def linkLimit : Nat := 40

def stepLimit (t : FileTree) (path : String) : Nat :=
  let longest := t.entries.foldl (fun n e => match e.2 with
    | .link target => max n (steps target).length
    | _ => n) 0
  (steps path).length + linkLimit * (longest + 1) + 2

def lookup (t : FileTree) (path : String) (followLast : Bool) : Option Lookup :=
  if path.isEmpty then none
  else t.follow followLast (t.stepLimit path) linkLimit (t.start path t.working) (steps path)

def entry? (t : FileTree) (path : String) : Option (Location × Entry) :=
  match t.lookup path true with
  | some (.found l e) => some (l, e)
  | _ => none

def exists? (t : FileTree) (path : String) : Bool := (t.entry? path).isSome

def isDirectory (t : FileTree) (path : String) : Bool :=
  match t.entry? path with
  | some (_, .directory) => true
  | _ => false

def isFile (t : FileTree) (path : String) : Bool :=
  match t.entry? path with
  | some (_, .file _) => true
  | _ => false

def canonical? (t : FileTree) (path : String) : Option Location := (t.entry? path).map (·.1)

/-! ## Operations -/

def read? (t : FileTree) (path : String) : Option (List UInt8) :=
  match t.entry? path with
  | some (_, .file content) => some content
  | _ => none

def readText? (t : FileTree) (path : String) : Option String :=
  (t.read? path).bind fun bytes => String.fromUTF8? ⟨bytes.toArray⟩

def write? (t : FileTree) (path : String) (content : List UInt8) : Option FileTree :=
  match t.lookup path true with
  | some (.found l (.file _)) => some (t.put l (.file content))
  | some (.missing l) => some (t.put l (.file content))
  | _ => none

def writeText? (t : FileTree) (path content : String) : Option FileTree :=
  t.write? path content.toUTF8.toList

/-- Where a directory may be made: a missing name, with or without a slash behind it. -/
def missingDirectory? (t : FileTree) (path : String) : Option Location :=
  let rec named : List Char → List Char
    | '/' :: rest => named rest
    | s => s
  match t.lookup (String.ofList (named path.toList.reverse).reverse) false with
  | some (.missing l) => some l
  | _ => none

/-- Makes a directory and those above it that are missing. -/
def makeDirectories? : Nat → FileTree → String → Option FileTree
  | 0, _, _ => none
  | fuel + 1, t, path =>
    if path.isEmpty then some t
    else match t.missingDirectory? path with
      | some l => some (t.put l .directory)
      | none =>
        if t.isDirectory path then some t
        else match t.lookup path false with
          | some _ => none
          | none =>
            match FilePath.parent? path with
            | none => none
            | some parent =>
              match makeDirectories? fuel t parent with
              | none => none
              | some t =>
                match t.missingDirectory? path with
                | some l => some (t.put l .directory)
                | none => if t.isDirectory path then some t else none

def makeAll? (t : FileTree) (path : String) : Option FileTree :=
  makeDirectories? (path.length + 1) t path

/-- Moves a file or a link over a file, a link, or nothing. -/
def rename? (t : FileTree) (source target : String) : Option FileTree :=
  match t.lookup source false, t.lookup target false with
  | some (.found _ .directory), _ => none
  | _, some (.found _ .directory) => none
  | some (.found s e), some (.missing d) => some ((t.drop s).put d e)
  | some (.found s e), some (.found d _) => some ((t.drop s).put d e)
  | _, _ => none

def remove? (t : FileTree) (path : String) : Option FileTree :=
  match t.lookup path false with
  | some (.found l _) => if l.isEmpty then none else some (t.drop l)
  | _ => none

def link? (t : FileTree) (path target : String) : Option FileTree :=
  match target.isEmpty, t.lookup path false with
  | false, some (.missing l) => some (t.put l (.link target))
  | _, _ => none

end FileTree
end TraitClient
