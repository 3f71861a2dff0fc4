import TraitClient.CommandLine.Arguments
import TraitClient.Generation.Run

/-!
# The command

Checks the source directory, then generates code or dumps the model, and says on the way what it
does.
-/
namespace TraitClient

inductive CommandFailure
  | sourceMissing (path : String)
  | sourceNotDirectory (path : String)
  | plain (e : GenerationError)
  | generation (source : String) (e : GenerationError)
  | badWord (w : Code.Word)

namespace CommandFailure

def message : CommandFailure → String
  | .sourceMissing path => "Source directory does not exist: " ++ path
  | .sourceNotDirectory path => "Source path is not a directory: " ++ path
  | .plain e => e.message
  | .generation source _ => "Generation failed for " ++ source
  | .badWord _ => "a name cannot be written"

end CommandFailure

/-- What a command leaves behind: a tree, the lines it printed, and how it ended. -/
structure CommandResult where
  tree : FileTree
  printed : List String
  outcome : Logged CommandFailure Unit

namespace Arguments

/-- Fails unless the source directory is one, and says what the arguments ask for. -/
def check (a : Arguments) (t : FileTree) : Logged CommandFailure Unit := do
  if !t.exists? a.sourceDirectory then Logged.fail (.sourceMissing a.sourceDirectory)
  if !t.isDirectory a.sourceDirectory then Logged.fail (.sourceNotDirectory a.sourceDirectory)
  Logged.info ("Source directory: " ++ a.sourceDirectory)
  match a.dumpModel, a.outDirectory with
  | some format, _ => Logged.info ("Dumping model as " ++ format.label)
  | none, some directory => Logged.info ("Output directory: " ++ directory)
  | none, none => pure ()
  Logged.info ("Attribute namespace: " ++ a.attributeNamespace)

/-- Prints the plans of the sources; what keeps the other services from having one is logged. -/
def dump (a : Arguments) (g : Generator) (format : DumpFormat) (t : FileTree) : CommandResult :=
  let analysis := g.analyze t a.sourceDirectory
  match analysis.result with
  | .error e => ⟨t, [], ⟨analysis.log, .error (.plain e)⟩⟩
  | .ok found =>
    let warnings := found.errors.map fun e => (⟨.warn, e.message⟩ : LogLine)
    ⟨t, [format.dump found.plans], ⟨analysis.log ++ warnings, .ok ()⟩⟩

def summary (report : Report) : Logged CommandFailure Unit := do
  Logged.lines (report.warnings.map fun w => ⟨.warn, w⟩)
  Logged.info "Generation complete!"
  Logged.info "Summary:"
  Logged.info ("  - Files scanned: " ++ toString report.filesScanned)
  Logged.info ("  - Implementations: " ++ toString report.generated.length)
  Logged.info ("  - Files written: " ++ toString report.written.length)
  Logged.info ("  - Files unchanged: " ++ toString report.unchanged.length)

def failureOf (source : String) : EmitFailure → CommandFailure
  | .badWord w => .badWord w
  | .error e => .generation source e

def generate (a : Arguments) (g : Generator) (directory : String) (t : FileTree) : CommandResult :=
  let (folder, run) := g.run a.sourceDirectory ⟨t, directory, a.cargo, []⟩
  let outcome : Logged CommandFailure Unit := do
    Logged.info "Generating client implementations..."
    Logged.lines run.log
    let report ← Logged.ofExcept (run.result.mapError (failureOf a.sourceDirectory))
    summary report
  ⟨folder.tree, folder.printed, outcome⟩

def execute (a : Arguments) (t : FileTree) : CommandResult :=
  match Generator.ofSettings a.settings with
  | .error e => ⟨t, [], Logged.fail (.plain e)⟩
  | .ok g =>
    match a.dumpModel, a.outDirectory with
    | some format, _ => a.dump g format t
    | none, some directory => a.generate g directory t
    | none, none => ⟨t, [], pure ()⟩

def run (a : Arguments) (t : FileTree) : CommandResult :=
  let checked := a.check t
  match checked.result with
  | .error e => ⟨t, [], ⟨checked.log, .error e⟩⟩
  | .ok () =>
    let r := a.execute t
    { r with outcome := ⟨checked.log ++ r.outcome.log, r.outcome.result⟩ }

end Arguments

/-! ## The program -/

structure ProgramResult where
  tree : FileTree
  exitCode : Nat
  printed : List String
  log : List LogLine
  error : Option String

namespace CommandLine

def versionText : String := "client-from-source 0.1.0"

/-- Help and version are no errors. -/
def usageResult (t : FileTree) : UsageError → ProgramResult
  | .displayVersion => ⟨t, 0, [versionText], [], none⟩
  | .displayHelp => ⟨t, 0, [], [], none⟩
  | _ => ⟨t, 2, [], [], none⟩

/-- Parses the command line and runs the command between two log lines of its own. -/
def runProgram (environment : Environment) (words : List String) (t : FileTree) : ProgramResult :=
  match Arguments.parse environment words with
  | .error e => usageResult t e
  | .ok a =>
    let r := a.run t
    let log := ⟨.info, "client-from-source starting..."⟩ :: r.outcome.log
    match r.outcome.result with
    | .ok () =>
      let log := log ++ [⟨.info, "Client generation completed successfully"⟩]
      ⟨r.tree, 0, r.printed, log, none⟩
    | .error (.badWord _) => ⟨r.tree, 101, r.printed, log, none⟩
    | .error e => ⟨r.tree, 1, r.printed, log, some e.message⟩

end CommandLine
end TraitClient
