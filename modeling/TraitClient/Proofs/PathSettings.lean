import TraitClient.Proofs.EmittedUnits
import TraitClient.Proofs.RuntimeNames

/-!
# Path settings

Two settings may spell their paths in different ways and have them parsed alike.  Code is emitted from
what was parsed, but attributes and types are compared with the text, where a blank or a comment is
part of the name.  A namespace that is not bare has no attribute below it that a file can name, and a
runtime path that is not bare has no type below it, so settings that are spelled alike do the same.
-/
namespace TraitClient

open Source (parsePath?)
open Extraction (services)

/-! ## Settings -/

/-- Settings with the same paths, and the same in all else. -/
structure Settings.SamePaths (s s' : Settings) : Prop where
  attributeNamespace : parsePath? s.attributeNamespace = parsePath? s'.attributeNamespace
  runtimePath : parsePath? s.runtimePath = parsePath? s'.runtimePath
  failFast : s.failFast = s'.failFast
  cargoDirectives : s.cargoDirectives = s'.cargoDirectives
  exclude : s.exclude = s'.exclude

theorem Settings.SamePaths.symm {s s' : Settings} (h : s.SamePaths s') : s'.SamePaths s :=
  ⟨h.attributeNamespace.symm, h.runtimePath.symm, h.failFast.symm, h.cargoDirectives.symm,
    h.exclude.symm⟩

/-- Each path is bare in both settings or in none.  Where the namespace is not, the runtime path is
never looked at. -/
def Settings.SpelledAlike (s s' : Settings) : Prop :=
  (IsBare s.attributeNamespace ↔ IsBare s'.attributeNamespace) ∧
    (IsBare s.attributeNamespace → (IsBare s.runtimePath ↔ IsBare s'.runtimePath))

theorem eq_of_bare {text text' : String} (hSome : (parsePath? text).isSome = true)
    (hSame : parsePath? text = parsePath? text') (h : IsBare text) (h' : IsBare text') :
    text = text' := by
  obtain ⟨path, hPath⟩ := Option.isSome_iff_exists.mp hSome
  rw [Source.parsePath?_bare h hPath, Source.parsePath?_bare h' (hSame ▸ hPath)]

namespace Generator

variable {s s' : Settings} {g g' : Generator}

theorem pathSetting_eq_ok {setting value : String} {path : Source.PathExpr}
    (h : pathSetting setting value = .ok path) : parsePath? value = some path := by
  unfold pathSetting at h
  split at h
  · rename_i hPath
    cases h
    exact hPath
  · cases h

theorem ofSettings_eq_ok (h : ofSettings s = .ok g) :
    (parsePath? s.attributeNamespace).isSome = true ∧ parsePath? s.runtimePath = some g.runtime ∧
      g.settings = s ∧ g.annotations = .ofNamespace s.attributeNamespace ∧
      g.types = .ofPath s.runtimePath := by
  obtain ⟨space, hSpace, h⟩ := bind_eq_ok h
  obtain ⟨runtime, hRuntime, h⟩ := bind_eq_ok h
  cases h
  rw [pathSetting_eq_ok hSpace, pathSetting_eq_ok hRuntime]
  exact ⟨rfl, rfl, rfl, rfl, rfl⟩

end Generator

/-! ## Namespaces -/

namespace AnnotationTable

variable {space : String}

theorem lookup_of_not_bare (hSpace : ¬IsBare space) {name : String} (hName : IsBare name) :
    (ofNamespace space).lookup name = none := by
  rw [lookup, Option.map_eq_none_iff, List.find?_eq_none]
  intro entry _ hSame
  have hBare := isBare_withoutLeadingColons.mpr hName
  rw [← beq_iff_eq.mp hSame] at hBare
  exact hSpace (isBare_withoutLeadingColons.mp (isBare_append.mp (isBare_append.mp hBare).1).1)

theorem classify_of_not_bare (hSpace : ¬IsBare space) {imports : Imports} {a : Source.Attribute}
    (h : ∀ candidate ∈ imports.candidates a.path.segments a.path.leadingColon, IsBare candidate) :
    (ofNamespace space).classify imports a = none :=
  List.findSome?_eq_none_iff.mpr fun candidate hCandidate =>
    lookup_of_not_bare hSpace (h candidate hCandidate)

theorem services_of_not_bare (hSpace : ¬IsBare space) {files : List SourceFile}
    (hFiles : ∀ f ∈ files, f.Lexed) : services (ofNamespace space) files = [] := by
  have hNone : ∀ e ∈ (Extraction.TraitIndex.ofFiles files).traits,
      ¬Extraction.isService (ofNamespace space) e = true := by
    intro e he hService
    obtain ⟨a, ha, hKind⟩ := List.any_eq_true.mp hService
    rw [classify_of_not_bare hSpace (Extraction.TraitIndex.bareCandidates hFiles he ha)] at hKind
    cases of_decide_eq_true hKind
  rw [services, List.filter_eq_nil_iff.mpr hNone, List.map_nil]

end AnnotationTable

/-! ## Analysis -/

namespace Generator

variable {s s' : Settings} {g g' : Generator} {files : List SourceFile}

theorem analyzeFiles_congr (hMode : g.settings.failFast = g'.settings.failFast)
    (hServices : services g.annotations files = services g'.annotations files)
    (hPlans : ∀ service ∈ services g'.annotations files, ∀ i, service.result = .ok i →
      Plan.ofInterface g.types i = Plan.ofInterface g'.types i) :
    g.analyzeFiles files = g'.analyzeFiles files := by
  have hAttempts : (services g'.annotations files).map
      (fun service => service.result.bind (Plan.ofInterface g.types)) =
      (services g'.annotations files).map
        fun service => service.result.bind (Plan.ofInterface g'.types) := by
    refine List.map_congr_left fun service hService => ?_
    cases hResult : service.result with
    | error e => rfl
    | ok i => exact hPlans service hService i hResult
  unfold analyzeFiles
  dsimp only
  rw [hServices, hMode, hAttempts]

theorem analyzeFiles_of_not_bare (hg : ofSettings s = .ok g) (hSpace : ¬IsBare s.attributeNamespace)
    (hFiles : ∀ f ∈ files, f.Lexed) :
    (g.analyzeFiles files).result = .ok ⟨files.length, [], [], []⟩ := by
  obtain ⟨_, _, _, hTable, _⟩ := ofSettings_eq_ok hg
  rw [analyzeFiles_result, planned, hTable, AnnotationTable.services_of_not_bare hSpace hFiles]
  rfl

theorem plan_of_service (hFiles : ∀ f ∈ files, f.Lexed) {path path' : String}
    (hPath : ¬IsBare path) (hPath' : ¬IsBare path') {table : AnnotationTable}
    {service : Logged GenerationError Interface} (hService : service ∈ services table files)
    {i : Interface} (h : service.result = .ok i) :
    Plan.ofInterface (.ofPath path) i = Plan.ofInterface (.ofPath path') i := by
  obtain ⟨e, he, rfl⟩ := List.mem_map.mp hService
  have hIndex := Extraction.TraitIndex.ofFiles_wellNamed fun f hf => (hFiles f hf).names
  have hNamed := Extraction.interfaceOf_plainlyNamed hIndex (List.mem_filter.mp he).1 h
  exact Plan.ofInterface_congr fun m hm p hp =>
    RuntimeTypes.agree_of_not_bare hPath hPath' (hNamed m hm p hp)

theorem analyzeFiles_of_spelledAlike (hSame : s.SamePaths s') (hg : ofSettings s = .ok g)
    (hg' : ofSettings s' = .ok g') (hAlike : s.SpelledAlike s') (hFiles : ∀ f ∈ files, f.Lexed) :
    g.analyzeFiles files = g'.analyzeFiles files := by
  obtain ⟨hSpaceSome, hRuntimeSome, hSettings, hTable, hTypes⟩ := ofSettings_eq_ok hg
  obtain ⟨_, _, hSettings', hTable', hTypes'⟩ := ofSettings_eq_ok hg'
  have hMode : g.settings.failFast = g'.settings.failFast := by
    rw [hSettings, hSettings', hSame.failFast]
  by_cases hSpace : IsBare s.attributeNamespace
  · have hSpaces := eq_of_bare hSpaceSome hSame.attributeNamespace hSpace (hAlike.1.mp hSpace)
    have hTables : g.annotations = g'.annotations := by rw [hTable, hTable', hSpaces]
    refine analyzeFiles_congr hMode (by rw [hTables]) fun service hService i hResult => ?_
    rw [hTypes, hTypes']
    by_cases hRuntime : IsBare s.runtimePath
    · have hRuntimes := eq_of_bare (by rw [hRuntimeSome, Option.isSome_some]) hSame.runtimePath
        hRuntime ((hAlike.2 hSpace).mp hRuntime)
      rw [hRuntimes]
    · have hRuntime' : ¬IsBare s'.runtimePath := mt (hAlike.2 hSpace).mpr hRuntime
      exact plan_of_service hFiles hRuntime hRuntime' hService hResult
  · have hSpace' : ¬IsBare s'.attributeNamespace := mt hAlike.1.mpr hSpace
    have hNone := AnnotationTable.services_of_not_bare hSpace hFiles
    have hNone' := AnnotationTable.services_of_not_bare hSpace' hFiles
    rw [← hTable] at hNone
    rw [← hTable'] at hNone'
    refine analyzeFiles_congr hMode (hNone.trans hNone'.symm) fun service hService => ?_
    rw [hNone'] at hService
    cases hService

/-! ## Runs -/

theorem unitsUpToBadWord_congr (hRuntime : g.runtime = g'.runtime) (plans : List Plan) :
    g.unitsUpToBadWord plans = g'.unitsUpToBadWord plans := by
  induction plans with
  | nil => rfl
  | cons p plans ih => rw [unitsUpToBadWord, unitsUpToBadWord, hRuntime, ih]

theorem emit_congr (hMode : g.settings.failFast = g'.settings.failFast)
    (hRuntime : g.runtime = g'.runtime) (plans : List Plan) : g.emit plans = g'.emit plans := by
  rw [emit, emit, hMode, unitsUpToBadWord_congr hRuntime]

theorem writeAnalysis_congr (hEmit : ∀ plans, g.emit plans = g'.emit plans) {σ : Type}
    (sink : Sink σ) (st : σ) (analysis : Logged GenerationError Analysis) :
    g.writeAnalysis sink st analysis = g'.writeAnalysis sink st analysis := by
  have hWrite (a : Analysis) : g.write sink st a = g'.write sink st a := by
    rw [write, write, hEmit]
  simp only [writeAnalysis, hWrite]

theorem analyze_congr (hMode : g.settings.failFast = g'.settings.failFast)
    (hExclude : g.settings.exclude = g'.settings.exclude)
    (hFiles : ∀ files, (∀ f ∈ files, f.IsParsed) → g.analyzeFiles files = g'.analyzeFiles files)
    (t : FileTree) (root : String) : g.analyze t root = g'.analyze t root := by
  unfold analyze
  rw [hMode, hExclude]
  refine congrArg (Logged.info ("Scanning " ++ root) >>= ·) (funext fun _ => ?_)
  cases Scan.sourceFiles? t root g'.settings.exclude with
  | none => rfl
  | some paths =>
    have hParsed := hFiles (successes (SourceFile.readAll t root paths).2) fun _ hf =>
      SourceFile.readAll_isParsed hf
    unfold successes at hParsed
    simp only [hParsed]

/-- The same files are analysed alike, and all that a run makes of them is the same. -/
structure SameRuns (g g' : Generator) : Prop where
  analyzed : ∀ files, (∀ f ∈ files, f.Lexed) → g.analyzeFiles files = g'.analyzeFiles files
  stored : ∀ {σ : Type} (sink : Sink σ) (st : σ) files, (∀ f ∈ files, f.Lexed) →
    g.runFiles sink st files = g'.runFiles sink st files
  generated : ∀ root f, g.run root f = g'.run root f

theorem SameRuns.of_analyzed (hMode : g.settings.failFast = g'.settings.failFast)
    (hExclude : g.settings.exclude = g'.settings.exclude)
    (hEmit : ∀ plans, g.emit plans = g'.emit plans)
    (hAnalyzed : ∀ files, (∀ f ∈ files, f.Lexed) → g.analyzeFiles files = g'.analyzeFiles files) :
    g.SameRuns g' where
  analyzed := hAnalyzed
  stored sink st files hFiles := by
    rw [runFiles, runFiles, hAnalyzed files hFiles, writeAnalysis_congr hEmit]
  generated root f := by
    have hParsed (files : List SourceFile) (hFiles : ∀ f ∈ files, f.IsParsed) :
        g.analyzeFiles files = g'.analyzeFiles files :=
      hAnalyzed files fun f hf => (hFiles f hf).lexed
    rw [run, run, analyze_congr hMode hExclude hParsed, writeAnalysis_congr hEmit]

end Generator
end TraitClient
