import TraitClient.Generation.Run
import TraitClient.Proofs.Attempts
import TraitClient.Proofs.SingleErrors

/-!
# Runs that stop and runs that go on

A run that stops at the first error and one that goes on to the end agree: on the report and on what
is stored if there is no error, and otherwise on the first error, before which nothing is stored.
-/
namespace TraitClient

namespace Generator

/-- The same generator with another answer to the first error. -/
def inMode (g : Generator) (failFast : Bool) : Generator :=
  { g with settings := { g.settings with failFast } }

theorem ofSettings_inMode {s : Settings} {g : Generator} (h : ofSettings s = .ok g)
    (failFast : Bool) : ofSettings { s with failFast } = .ok (g.inMode failFast) := by
  simp only [ofSettings, bind, Except.bind] at h ⊢
  cases hSpace : pathSetting "namespace" s.attributeNamespace with
  | error e =>
    rw [hSpace] at h
    cases h
  | ok space =>
    cases hRuntime : pathSetting "runtime path" s.runtimePath with
    | error e =>
      rw [hSpace, hRuntime] at h
      cases h
    | ok runtime =>
      rw [hSpace, hRuntime] at h
      cases h
      rfl

/-! ## What becomes of a service -/

/-- A service trait that was extracted, or failed to be, is validated, encoded and emitted. -/
def outcome (g : Generator) (extracted : Except GenerationError Interface) :
    Except EmitFailure SourceUnit :=
  match extracted with
  | .error e => .error (.error e)
  | .ok i =>
    match Validation.violation? g.types i with
    | some v => .error (.error (.validation v))
    | none =>
      match BodyEncoding.ofInterface g.types i with
      | .error e => .error (.error e)
      | .ok encodings => Emission.unit g.runtime i encodings

/-- What becomes of the services of some files, in the order in which they are extracted. -/
def outcomes (g : Generator) (files : List SourceFile) : List (Except EmitFailure SourceUnit) :=
  (Extraction.services g.annotations files).map fun service => g.outcome service.result

/-- The services that are to be emitted, and the errors of the others. -/
def planned (g : Generator) (files : List SourceFile) : List (Except GenerationError Plan) :=
  (Extraction.services g.annotations files).map fun service =>
    service.result.bind (Plan.ofInterface g.types)

def emitted (g : Generator) (files : List SourceFile) : List (Except EmitFailure SourceUnit) :=
  (successes (g.planned files)).map fun p => Emission.unit g.runtime p.interface p.encodings

theorem outcome_eq (g : Generator) (extracted : Except GenerationError Interface) :
    g.outcome extracted = andThen EmitFailure.error
      (fun p : Plan => Emission.unit g.runtime p.interface p.encodings)
      (extracted.bind (Plan.ofInterface g.types)) := by
  cases extracted with
  | error e => rfl
  | ok i =>
    simp only [outcome, Except.bind, Plan.ofInterface]
    cases Validation.violation? g.types i with
    | some v => rfl
    | none => cases hEncodings : BodyEncoding.ofInterface g.types i <;> rfl

theorem outcomes_eq (g : Generator) (files : List SourceFile) :
    g.outcomes files = (g.planned files).map (andThen EmitFailure.error
      fun p : Plan => Emission.unit g.runtime p.interface p.encodings) := by
  rw [outcomes, planned, List.map_map]
  exact List.map_congr_left fun service _ => g.outcome_eq service.result

/-- The error by which a service has no unit, a bad word being none. -/
def emitError? : EmitFailure → Option GenerationError
  | .error e => some e
  | .badWord _ => none

/-- The errors of some files as a run reports them: those of emission come last. -/
def errors (g : Generator) (files : List SourceFile) : List GenerationError :=
  failures (g.planned files) ++ (failures (g.emitted files)).filterMap emitError?

/-- No name in the code of any service is one that cannot be written. -/
def Writable (g : Generator) (files : List SourceFile) : Prop :=
  ∀ w, .error (.badWord w) ∉ g.outcomes files

theorem successes_outcomes (g : Generator) (files : List SourceFile) :
    successes (g.outcomes files) = successes (g.emitted files) := by
  rw [outcomes_eq, successes_andThen]
  rfl

theorem failures_outcomes_perm (g : Generator) (files : List SourceFile) :
    ((failures (g.planned files)).map EmitFailure.error ++ failures (g.emitted files)).Perm
      (failures (g.outcomes files)) := by
  rw [outcomes_eq]
  exact failures_andThen ..

theorem Writable.emitted {g : Generator} {files : List SourceFile} (h : g.Writable files)
    (w : Code.Word) : .error (.badWord w) ∉ g.emitted files := by
  intro hMem
  refine h w (mem_failures.mp ?_)
  exact (g.failures_outcomes_perm files).mem_iff.mp
    (List.mem_append_right _ (mem_failures.mpr hMem))

theorem map_emitError? {failed : List EmitFailure} (h : ∀ w, .badWord w ∉ failed) :
    (failed.filterMap emitError?).map EmitFailure.error = failed := by
  induction failed with
  | nil => rfl
  | cons failure failed ih =>
    cases failure with
    | badWord w => exact absurd List.mem_cons_self (h w)
    | error e =>
      have hRest := ih fun w hw => h w (List.mem_cons_of_mem _ hw)
      exact congrArg (EmitFailure.error e :: ·) hRest

theorem errors_perm {g : Generator} {files : List SourceFile} (h : g.Writable files) :
    ((g.errors files).map EmitFailure.error).Perm (failures (g.outcomes files)) := by
  rw [errors, List.map_append, map_emitError? fun w hw => h.emitted w (mem_failures.mp hw)]
  exact g.failures_outcomes_perm files

/-! ## Results of a run -/

theorem analyzeFiles_result (g : Generator) (files : List SourceFile) :
    (g.analyzeFiles files).result =
      (settle g.settings.failFast (g.planned files)).result.map fun settled =>
        ⟨files.length, settled.1, settled.2, []⟩ := by
  rw [analyzeFiles, Logged.result_bind]
  change (settle g.settings.failFast (g.planned files) >>= _).result = _
  rw [Logged.result_bind]
  cases (settle g.settings.failFast (g.planned files)).result <;> rfl

theorem unitsUpToBadWord_of_noBadWord (g : Generator) {plans : List Plan}
    (h : ∀ w, .error (.badWord w) ∉
      plans.map fun p => Emission.unit g.runtime p.interface p.encodings) :
    ∃ units, g.unitsUpToBadWord plans = (units, none) ∧
      successes units =
        successes (plans.map fun p => Emission.unit g.runtime p.interface p.encodings) ∧
      failures units = (failures (plans.map fun p =>
        Emission.unit g.runtime p.interface p.encodings)).filterMap emitError? := by
  induction plans with
  | nil => exact ⟨[], rfl, rfl, rfl⟩
  | cons p plans ih =>
    obtain ⟨units, hUnits, hGood, hBad⟩ := ih fun w hw => h w (List.mem_cons_of_mem _ hw)
    rw [unitsUpToBadWord, List.map_cons, hUnits]
    cases hUnit : Emission.unit g.runtime p.interface p.encodings with
    | ok u => exact ⟨.ok u :: units, rfl, by simp [hGood], by simp [hBad]⟩
    | error failure =>
      cases failure with
      | error e =>
        exact ⟨.error e :: units, rfl, by simp [hGood], by simp [hBad, emitError?]⟩
      | badWord w => exact absurd (List.mem_map.mpr ⟨p, List.mem_cons_self, hUnit⟩) (h w)

theorem emit_result {g : Generator} {plans : List Plan}
    {units : List (Except GenerationError SourceUnit)}
    (h : g.unitsUpToBadWord plans = (units, none)) :
    (g.emit plans).result =
      (settle g.settings.failFast units).result.mapError EmitFailure.error := by
  simp only [emit, h]
  cases (settle g.settings.failFast units).result <;> rfl

theorem emit_keepGoing {g : Generator} {files : List SourceFile} (h : g.Writable files) :
    ((g.inMode false).emit (successes (g.planned files))).result =
      .ok (successes (g.emitted files), (failures (g.emitted files)).filterMap emitError?) := by
  obtain ⟨units, hUnits, hGood, hBad⟩ := unitsUpToBadWord_of_noBadWord (g.inMode false) h.emitted
  have hSettled := settle_keepGoing units
  rw [hGood, hBad] at hSettled
  rw [emit_result hUnits]
  exact congrArg (Except.mapError EmitFailure.error) hSettled

theorem emit_failFast {g : Generator} {files : List SourceFile} (h : g.Writable files) :
    ((g.inMode true).emit (successes (g.planned files))).result =
      match ((failures (g.emitted files)).filterMap emitError?).head? with
      | some e => .error (.error e)
      | none => .ok (successes (g.emitted files), []) := by
  obtain ⟨units, hUnits, hGood, hBad⟩ := unitsUpToBadWord_of_noBadWord (g.inMode true) h.emitted
  have hSettled := settle_failFast units
  rw [firstError?_eq_head?, hGood, hBad] at hSettled
  rw [emit_result hUnits]
  refine (congrArg (Except.mapError EmitFailure.error) hSettled).trans ?_
  change Except.mapError EmitFailure.error
    (match ((failures (g.emitted files)).filterMap emitError?).head? with
      | some e => Except.error e
      | none => .ok (successes (g.emitted files), [])) = _
  cases ((failures (g.emitted files)).filterMap emitError?).head? <;> rfl

theorem writeAnalysis_of_error {σ : Type} {analysis : Logged GenerationError Analysis}
    {e : GenerationError} (h : analysis.result = .error e) (g : Generator) (sink : Sink σ) (s : σ) :
    (g.writeAnalysis sink s analysis).1 = s ∧
      (g.writeAnalysis sink s analysis).2.result = .error (.error e) := by
  simp only [writeAnalysis, h, and_self]

theorem writeAnalysis_of_ok {σ : Type} {analysis : Logged GenerationError Analysis} {a : Analysis}
    (h : analysis.result = .ok a) (g : Generator) (sink : Sink σ) (s : σ) :
    (g.writeAnalysis sink s analysis).1 = (g.write sink s a).1 ∧
      (g.writeAnalysis sink s analysis).2.result = (g.write sink s a).2.result := by
  simp only [writeAnalysis, h, and_self]

theorem write_of_error {σ : Type} {g : Generator} {a : Analysis} {failure : EmitFailure}
    (h : (g.emit a.plans).result = .error failure) (sink : Sink σ) (s : σ) :
    (g.write sink s a).1 = s ∧ (g.write sink s a).2.result = .error failure := by
  simp only [write, h, and_self]

/-- Units are stored also if there are errors to report. -/
theorem write_of_ok {σ : Type} {g : Generator} {a : Analysis} {units : List SourceUnit}
    {failed : List GenerationError} (h : (g.emit a.plans).result = .ok (units, failed))
    (sink : Sink σ) (s : σ) :
    (g.write sink s a).1 = (storeAll sink s ⟨a.filesScanned, [], [], [], a.warnings⟩ units).1 ∧
      ∀ report,
        (storeAll sink s ⟨a.filesScanned, [], [], [], a.warnings⟩ units).2.result = .ok report →
        (g.write sink s a).2.result =
          match GenerationError.ofList? (a.errors ++ failed) with
          | some e => .error (.error e)
          | none => .ok report := by
  simp only [write, h]
  cases hStored : (storeAll sink s ⟨a.filesScanned, [], [], [], a.warnings⟩ units).2.result with
  | error e => simp
  | ok report =>
    cases GenerationError.ofList? (a.errors ++ failed) <;> simp

def storing {σ : Type} (g : Generator) (sink : Sink σ) (s : σ) (files : List SourceFile) :
    σ × Logged GenerationError Report :=
  storeAll sink s ⟨files.length, [], [], [], []⟩ (successes (g.outcomes files))

theorem runFiles_keepGoing {σ : Type} {g : Generator} {files : List SourceFile}
    (h : g.Writable files) (sink : Sink σ) (s : σ) :
    ((g.inMode false).runFiles sink s files).1 = (g.storing sink s files).1 ∧
      ∀ report, (g.storing sink s files).2.result = .ok report →
        ((g.inMode false).runFiles sink s files).2.result =
          match GenerationError.ofList? (g.errors files) with
          | some e => .error (.error e)
          | none => .ok report := by
  have hAnalysis : ((g.inMode false).analyzeFiles files).result =
      .ok ⟨files.length, successes (g.planned files), failures (g.planned files), []⟩ := by
    rw [analyzeFiles_result]
    exact congrArg _ (settle_keepGoing (g.planned files))
  have hRun := writeAnalysis_of_ok hAnalysis (g.inMode false) sink s
  have hWrite := write_of_ok
    (a := ⟨files.length, successes (g.planned files), failures (g.planned files), []⟩)
    (emit_keepGoing h) sink s
  rw [runFiles, hRun.1, hRun.2, storing, successes_outcomes]
  exact hWrite

theorem runFiles_failFast {σ : Type} {g : Generator} {files : List SourceFile}
    (h : g.Writable files) (sink : Sink σ) (s : σ) :
    (∀ e, (g.errors files).head? = some e →
      ((g.inMode true).runFiles sink s files).1 = s ∧
        ((g.inMode true).runFiles sink s files).2.result = .error (.error e)) ∧
    (g.errors files = [] →
      ((g.inMode true).runFiles sink s files).1 = (g.storing sink s files).1 ∧
      ∀ report, (g.storing sink s files).2.result = .ok report →
        ((g.inMode true).runFiles sink s files).2.result = .ok report) := by
  have hAnalysis := analyzeFiles_result (g.inMode true) files
  have hSettled := settle_failFast (g.planned files)
  have hEmit := emit_failFast h
  rw [firstError?_eq_head?] at hSettled
  cases hPlanned : failures (g.planned files) with
  | cons e rest =>
    -- The analysis itself fails, so that nothing is emitted.
    rw [hPlanned] at hSettled
    have hError : ((g.inMode true).analyzeFiles files).result = .error e :=
      hAnalysis.trans (congrArg _ hSettled)
    have hRun := writeAnalysis_of_error hError (g.inMode true) sink s
    simp only [errors, hPlanned, List.cons_append, List.head?_cons, Option.some.injEq,
      reduceCtorEq, false_implies, and_true]
    rintro _ rfl
    exact hRun
  | nil =>
    rw [hPlanned] at hSettled
    have hOk : ((g.inMode true).analyzeFiles files).result =
        .ok ⟨files.length, successes (g.planned files), [], []⟩ :=
      hAnalysis.trans (congrArg _ hSettled)
    have hRun := writeAnalysis_of_ok hOk (g.inMode true) sink s
    rw [runFiles, hRun.1, hRun.2, errors, hPlanned, List.nil_append]
    cases hEmitted : (failures (g.emitted files)).filterMap emitError? with
    | cons e rest =>
      rw [hEmitted] at hEmit
      have hWrite := write_of_error
        (a := ⟨files.length, successes (g.planned files), [], []⟩) hEmit sink s
      refine ⟨?_, by simp⟩
      rintro e' hHead
      cases hHead
      exact hWrite
    | nil =>
      rw [hEmitted] at hEmit
      have hWrite := write_of_ok
        (a := ⟨files.length, successes (g.planned files), [], []⟩) hEmit sink s
      refine ⟨by simp, fun _ => ?_⟩
      rw [storing, successes_outcomes]
      exact hWrite

theorem storeAll_unitStore (report : Report) (units : List SourceUnit) (s : UnitStore) :
    (storeAll UnitStore.sink s report units).1 = units.foldl (fun s u => (s.write u).1) s ∧
      ∃ done, (storeAll UnitStore.sink s report units).2.result = .ok done := by
  induction units generalizing s report with
  | nil => exact ⟨rfl, report, rfl⟩
  | cons u units ih => exact ih (report.record u (s.write u).2) (s.write u).1

theorem isSingle_of_mem_errors {g : Generator} {files : List SourceFile} {e : GenerationError}
    (h : e ∈ g.errors files) : e.IsSingle := by
  rcases List.mem_append.mp h with hPlanned | hEmitted
  · obtain ⟨service, hService, hFails⟩ := List.mem_map.mp (mem_failures.mp hPlanned)
    obtain ⟨entry, _, rfl⟩ := List.mem_map.mp hService
    exact (FailsSingly.bind (Extraction.failsSingly_interfaceOf _ entry)
      (Plan.failsSingly_ofInterface g.types)).isSingle hFails
  · obtain ⟨failure, hFailure, hError⟩ := List.mem_filterMap.mp hEmitted
    obtain ⟨p, _, hUnit⟩ := List.mem_map.mp (mem_failures.mp hFailure)
    cases failure with
    | badWord w => cases hError
    | error _ =>
      cases hError
      exact Emission.isSingle_of_unit hUnit

/-! ## Both modes -/

/-- How a run ends that has gone on past some errors: with a report if there are none, with the error
if there is one, and with all of them in their order if there are several. -/
inductive EndsAfter : List GenerationError → Except EmitFailure Report → Prop
  | noError (report : Report) : EndsAfter [] (.ok report)
  | oneError (e : GenerationError) : EndsAfter [e] (.error (.error e))
  | several (e e' : GenerationError) (more : List GenerationError) :
      EndsAfter (e :: e' :: more) (.error (.error (.multiple (e :: e' :: more))))

theorem endsAfter_ofList? (errors : List GenerationError) (report : Report) :
    EndsAfter errors (match GenerationError.ofList? errors with
      | some e => .error (.error e)
      | none => .ok report) := by
  match errors with
  | [] => exact .noError report
  | [e] => exact .oneError e
  | e :: e' :: more => exact .several e e' more

/-- A run that stops agrees with one that goes on from the same store: it ends with the only error of
the other one, or with the first of several. -/
structure RunsAgree (store : UnitStore) (stopping going : UnitStore × Logged EmitFailure Report) :
    Prop where
  accepted : ∀ report, going.2.result = .ok report →
    stopping.2.result = .ok report ∧ stopping.1 = going.1
  refused : ∀ failure, going.2.result = .error failure →
    ∃ e, stopping.2.result = .error (.error e) ∧ stopping.1 = store ∧
      (e.IsSingle ∧ failure = .error e ∨ ∃ e' more, failure = .error (.multiple (e :: e' :: more)))

/-- A run stores the units of the services that have one, in their order, and ends with one error for
each of the others. -/
structure ReportsAll (outcomes : List (Except EmitFailure SourceUnit))
    (errors : List GenerationError) (store : UnitStore)
    (run : UnitStore × Logged EmitFailure Report) : Prop where
  stored : run.1 = (successes outcomes).foldl (fun s u => (s.write u).1) store
  single : ∀ e ∈ errors, e.IsSingle
  oneForEach : (errors.map EmitFailure.error).Perm (failures outcomes)
  count : (successes outcomes).length + errors.length = outcomes.length
  ended : EndsAfter errors run.2.result

theorem runFiles_endsAfter {g : Generator} {files : List SourceFile} (h : g.Writable files)
    (store : UnitStore) :
    EndsAfter (g.errors files) ((g.inMode false).runFiles UnitStore.sink store files).2.result := by
  obtain ⟨_, done, hDone⟩ := storeAll_unitStore ⟨files.length, [], [], [], []⟩
    (successes (g.outcomes files)) store
  rw [(runFiles_keepGoing h UnitStore.sink store).2 done hDone]
  exact endsAfter_ofList? _ done

theorem RunsAgree.of_ok {store : UnitStore} {stopping going : UnitStore × Logged EmitFailure Report}
    {report : Report} (hGoing : going.2.result = .ok report)
    (hStopping : stopping.2.result = .ok report) (hStore : stopping.1 = going.1) :
    RunsAgree store stopping going := by
  constructor
  · intro report' hReport'
    rw [← hReport', hGoing]
    exact ⟨hStopping, hStore⟩
  · intro failure hFailure
    rw [hGoing] at hFailure
    cases hFailure

theorem RunsAgree.of_error {store : UnitStore}
    {stopping going : UnitStore × Logged EmitFailure Report} {e : GenerationError}
    {failure : EmitFailure} (hGoing : going.2.result = .error failure)
    (hFirst : e.IsSingle ∧ failure = .error e ∨
      ∃ e' more, failure = .error (.multiple (e :: e' :: more)))
    (hStopping : stopping.2.result = .error (.error e)) (hStore : stopping.1 = store) :
    RunsAgree store stopping going := by
  constructor
  · intro report hReport
    rw [hGoing] at hReport
    cases hReport
  · intro failure' hFailure'
    rw [hGoing] at hFailure'
    cases hFailure'
    exact ⟨e, hStopping, hStore, hFirst⟩

theorem runFiles_runsAgree {g : Generator} {files : List SourceFile} (h : g.Writable files)
    (store : UnitStore) :
    RunsAgree store ((g.inMode true).runFiles UnitStore.sink store files)
      ((g.inMode false).runFiles UnitStore.sink store files) := by
  obtain ⟨_, done, hDone⟩ := storeAll_unitStore ⟨files.length, [], [], [], []⟩
    (successes (g.outcomes files)) store
  obtain ⟨hGoingStore, hGoing⟩ := runFiles_keepGoing h UnitStore.sink store
  obtain ⟨hStopped, hStopping⟩ := runFiles_failFast h UnitStore.sink store
  have hResult := hGoing done hDone
  match hErrors : g.errors files with
  | [] =>
    obtain ⟨hStore, hReport⟩ := hStopping hErrors
    rw [hErrors] at hResult
    exact .of_ok hResult (hReport done hDone) (hStore.trans hGoingStore.symm)
  | [e] =>
    obtain ⟨hStore, hStop⟩ := hStopped e (by rw [hErrors, List.head?_cons])
    have hMem : e ∈ g.errors files := by rw [hErrors]; exact List.mem_cons_self
    rw [hErrors] at hResult
    exact .of_error hResult (.inl ⟨isSingle_of_mem_errors hMem, rfl⟩) hStop hStore
  | e :: e' :: more =>
    obtain ⟨hStore, hStop⟩ := hStopped e (by rw [hErrors, List.head?_cons])
    rw [hErrors] at hResult
    exact .of_error hResult (.inr ⟨e', more, rfl⟩) hStop hStore

theorem runFiles_reportsAll {g : Generator} {files : List SourceFile} (h : g.Writable files)
    (store : UnitStore) :
    ReportsAll (g.outcomes files) (g.errors files) store
      ((g.inMode false).runFiles UnitStore.sink store files) := by
  obtain ⟨hStored, -⟩ := storeAll_unitStore ⟨files.length, [], [], [], []⟩
    (successes (g.outcomes files)) store
  have hErrors := errors_perm h
  have hLength := hErrors.length_eq
  rw [List.length_map] at hLength
  refine ⟨(runFiles_keepGoing h UnitStore.sink store).1.trans hStored,
    fun _ => isSingle_of_mem_errors, hErrors, ?_, runFiles_endsAfter h store⟩
  rw [hLength]
  exact length_successes_failures (g.outcomes files)

/-- Both modes of an accepted generator agree on any files, and a run that goes on stores and reports
all that becomes of their services. -/
theorem runFiles_modes (s : Settings) (g : Generator) (hAccepted : ofSettings s = .ok g)
    (files : List SourceFile) (hWritable : g.Writable files) (store : UnitStore) :
    (∀ failFast, ofSettings { s with failFast } = .ok (g.inMode failFast)) ∧
      RunsAgree store ((g.inMode true).runFiles UnitStore.sink store files)
        ((g.inMode false).runFiles UnitStore.sink store files) ∧
      ReportsAll (g.outcomes files) (g.errors files) store
        ((g.inMode false).runFiles UnitStore.sink store files) ∧
      ∀ {σ : Type} (sink : Sink σ) (t : σ), ((g.inMode false).runFiles sink t files).1 =
        (storeAll sink t ⟨files.length, [], [], [], []⟩ (successes (g.outcomes files))).1 :=
  ⟨ofSettings_inMode hAccepted, runFiles_runsAgree hWritable store,
    runFiles_reportsAll hWritable store, fun sink t => (runFiles_keepGoing hWritable sink t).1⟩

def oneFunctionTrait (name marker path : String) : Source.TraitDeclaration where
  attributes := [⟨⟨false, ["api", "api_service"]⟩, .none⟩]
  isPublic := true
  name
  hasGenerics := false
  supertraits := []
  functions :=
    [{ attributes := [⟨⟨false, ["api", marker]⟩, .value (some path)⟩]
       name := "call"
       isAsync := true
       hasGenerics := false
       parameters := [.receiver true false]
       output := none
       hasBody := false }]

/-- A service between one that is not valid and one that cannot be extracted. -/
def mixedFiles : List SourceFile :=
  [⟨"src/docs.rs", ["docs"],
    [.trait (oneFunctionTrait "Unbound" "get" "/docs/{id}"),
      .trait { oneFunctionTrait "Empty" "get" "/docs" with functions := [] },
      .trait (oneFunctionTrait "Misplaced" "path" "/docs")]⟩]

def shortGenerator : Generator where
  settings := { attributeNamespace := "api", runtimePath := "rt" }
  annotations := .ofNamespace "api"
  types := .ofPath "rt"
  runtime := ⟨[.ident "rt"], false, [.mk "rt" .none]⟩

theorem ofSettings_short : ofSettings shortGenerator.settings = .ok shortGenerator := by
  rfl

theorem mixedFiles_writable : shortGenerator.Writable mixedFiles := by
  have hAll : (shortGenerator.outcomes mixedFiles).all (fun
      | .error (.badWord _) => false
      | _ => true) = true := by
    decide +kernel
  intro w hMem
  cases List.all_eq_true.mp hAll _ hMem

theorem mixedFiles_modes :
    (successes (shortGenerator.outcomes mixedFiles)).map (·.name) = ["EmptyImpl"] ∧
      (failures (shortGenerator.outcomes mixedFiles)).length = 2 ∧
      RunsAgree .empty ((shortGenerator.inMode true).runFiles UnitStore.sink .empty mixedFiles)
        ((shortGenerator.inMode false).runFiles UnitStore.sink .empty mixedFiles) :=
  ⟨by decide +kernel, by decide +kernel, (runFiles_modes shortGenerator.settings shortGenerator
    ofSettings_short mixedFiles mixedFiles_writable .empty).2.1⟩

end Generator
end TraitClient
