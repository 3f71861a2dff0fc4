import TraitClient.Generation.Analysis
import TraitClient.Generation.Sink

/-!
# Generation runs

A run emits the units of all plans before it stores any, so that a failure under fail-fast leaves
the sink alone.  Otherwise the good units are stored and the failures reported together.
-/
namespace TraitClient

structure Report where
  filesScanned : Nat
  generated : List String
  written : List String
  unchanged : List String
  warnings : List String
  deriving Repr, DecidableEq

namespace Report

def record (r : Report) (u : SourceUnit) (outcome : WriteOutcome) : Report :=
  let r := { r with generated := r.generated ++ [u.name] }
  match outcome with
  | .written path => { r with written := r.written ++ [path] }
  | .unchanged path => { r with unchanged := r.unchanged ++ [path] }

def summary (r : Report) : String :=
  "Generated " ++ toString r.generated.length ++ " implementations (" ++
    toString r.written.length ++ " written, " ++ toString r.unchanged.length ++ " unchanged)"

end Report

/-- Stores units one after the other, up to the first that cannot be stored. -/
def storeAll {σ : Type} (sink : Sink σ) :
    σ → Report → List SourceUnit → σ × Logged GenerationError Report
  | s, report, [] => (s, pure report)
  | s, report, u :: rest =>
    let (s, outcome) := sink s u
    match outcome.result with
    | .error e => (s, ⟨outcome.log, .error e⟩)
    | .ok done =>
      let (s, more) := storeAll sink s (report.record u done) rest
      (s, ⟨outcome.log ++ more.log, more.result⟩)

namespace Generator

/-- The units of some plans; a bad word is where it ends, and what follows is not looked at. -/
def unitsUpToBadWord (g : Generator) :
    List Plan → List (Except GenerationError SourceUnit) × Option Code.Word
  | [] => ([], none)
  | p :: rest =>
    match Emission.unit g.runtime p.interface p.encodings with
    | .error (.badWord w) => ([], some w)
    | .error (.error e) =>
      let (units, bad) := unitsUpToBadWord g rest
      (.error e :: units, bad)
    | .ok u =>
      let (units, bad) := unitsUpToBadWord g rest
      (.ok u :: units, bad)

/-- The units of all plans, with the errors of the plans that have none. -/
def emit (g : Generator) (plans : List Plan) :
    Logged EmitFailure (List SourceUnit × List GenerationError) :=
  let (units, bad) := g.unitsUpToBadWord plans
  let settled := settle g.settings.failFast units
  match settled.result, bad with
  | .error e, _ => ⟨settled.log, .error (.error e)⟩
  | .ok _, some w => ⟨settled.log, .error (.badWord w)⟩
  | .ok done, none => ⟨settled.log, .ok done⟩

def write {σ : Type} (g : Generator) (sink : Sink σ) (s : σ) (a : Analysis) :
    σ × Logged EmitFailure Report :=
  let emitted := g.emit a.plans
  match emitted.result with
  | .error e => (s, ⟨emitted.log, .error e⟩)
  | .ok (units, failures) =>
    let start : Report := ⟨a.filesScanned, [], [], [], a.warnings⟩
    let (s, stored) := storeAll sink s start units
    let log := emitted.log ++ stored.log
    match stored.result with
    | .error e => (s, ⟨log, .error (.error e)⟩)
    | .ok report =>
      let log := log ++ [⟨.info, report.summary⟩]
      match GenerationError.ofList? (a.errors ++ failures) with
      | some e => (s, ⟨log, .error (.error e)⟩)
      | none => (s, ⟨log, .ok report⟩)

/-- Stores the units of an analysis that may have failed. -/
def writeAnalysis {σ : Type} (g : Generator) (sink : Sink σ) (s : σ)
    (analysis : Logged GenerationError Analysis) : σ × Logged EmitFailure Report :=
  match analysis.result with
  | .error e => (s, ⟨analysis.log, .error (.error e)⟩)
  | .ok a =>
    let (s, report) := g.write sink s a
    (s, ⟨analysis.log ++ report.log, report.result⟩)

def runFiles {σ : Type} (g : Generator) (sink : Sink σ) (s : σ) (files : List SourceFile) :
    σ × Logged EmitFailure Report :=
  g.writeAnalysis sink s (g.analyzeFiles files)

/-- Generates code for the sources below a root into an output folder of the same tree. -/
def run (g : Generator) (root : String) (f : OutputFolder) :
    OutputFolder × Logged EmitFailure Report :=
  g.writeAnalysis OutputFolder.sink f (g.analyze f.tree root)

end Generator
end TraitClient
