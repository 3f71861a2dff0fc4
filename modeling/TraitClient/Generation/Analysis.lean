import TraitClient.Extraction.Service
import TraitClient.Files.Scan
import TraitClient.Generation.Generator
import TraitClient.Service.BodyEncoding
import TraitClient.Service.Validation

/-!
# Analysis of source files

What is known of the services of some files before code is generated: the valid ones with their
encodings, and the errors of the others.
-/
namespace TraitClient

structure Plan where
  interface : Interface
  encodings : List BodyEncoding
  deriving Repr

def Plan.ofInterface (types : RuntimeTypes) (i : Interface) : Except GenerationError Plan :=
  match Validation.violation? types i with
  | some v => .error (.validation v)
  | none => do
    let encodings ← BodyEncoding.ofInterface types i
    .ok ⟨i, encodings⟩

structure Analysis where
  filesScanned : Nat
  plans : List Plan
  errors : List GenerationError
  warnings : List String

/-- The successes and the failures among some attempts, each in order.  Either the first failure
ends it all, or failures are logged. -/
def settle {α : Type} (failFast : Bool) :
    List (Except GenerationError α) → Logged GenerationError (List α × List GenerationError)
  | [] => pure ([], [])
  | .ok a :: rest => do
    let (good, bad) ← settle failFast rest
    pure (a :: good, bad)
  | .error e :: rest =>
    if failFast then Logged.fail e
    else do
      Logged.warn e.message
      let (good, bad) ← settle failFast rest
      pure (good, e :: bad)

def SourceFile.read (t : FileTree) (root path : String) : Except ReadFault SourceFile :=
  match t.readText? path with
  | none => .error .unreadable
  | some text =>
    match Source.parseFile? text with
    | none => .error .notRust
    | some items => .ok { path, modulePath := modulePathOf path root, items }

/-- Reads files below a root; the faulty ones are logged. -/
def SourceFile.readAll (t : FileTree) (root : String) (paths : List String) :
    List LogLine × List (Except GenerationError SourceFile) :=
  let results := paths.map fun path => (path, SourceFile.read t root path)
  (results.filterMap fun (path, result) =>
      match result with
      | .error fault => some ⟨.warn, (GenerationError.parse path fault).message⟩
      | .ok _ => none,
    results.map fun (path, result) =>
      match result with
      | .error fault => .error (.parse path fault)
      | .ok file => .ok file)

namespace Generator

/-- Extracts the services of some files, then checks each of them. -/
def analyzeFiles (g : Generator) (files : List SourceFile) : Logged GenerationError Analysis := do
  let extracted := Extraction.services g.annotations files
  Logged.lines (extracted.flatMap (·.log))
  let (plans, errors) ← settle g.settings.failFast
    (extracted.map fun e => e.result.bind (Plan.ofInterface g.types))
  Logged.info ("Found " ++ toString plans.length ++ " service traits")
  pure { filesScanned := files.length, plans, errors, warnings := [] }

def firstError? {ε α : Type} : List (Except ε α) → Option ε
  | [] => none
  | .error e :: _ => some e
  | .ok _ :: rest => firstError? rest

/-- Scans a tree below a root and analyses the files in it.  Files that cannot be used count as
scanned, and their errors come first. -/
def analyze (g : Generator) (t : FileTree) (root : String) : Logged GenerationError Analysis := do
  Logged.info ("Scanning " ++ root)
  match Scan.sourceFiles? t root g.settings.exclude with
  | none => Logged.fail (.config (.notDirectory root))
  | some paths =>
    Logged.info ("Found " ++ toString paths.length ++ " Rust files")
    let (log, results) := SourceFile.readAll t root paths
    Logged.lines log
    let files := results.filterMap (·.toOption)
    let faults := results.filterMap fun
      | .error e => some e
      | .ok _ => none
    match g.settings.failFast, faults with
    | true, e :: _ => Logged.fail e
    | _, _ =>
      let analysis ← g.analyzeFiles files
      pure { analysis with filesScanned := paths.length, errors := faults ++ analysis.errors }

end Generator
end TraitClient
