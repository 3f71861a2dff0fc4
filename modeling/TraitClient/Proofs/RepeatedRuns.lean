import TraitClient.Proofs.StoredUnits

/-!
# Repeated runs

A run over the same files finds in a store what the run before it has put there.  A store tells units
apart by module and name, which differ if those of their traits do.
-/
namespace TraitClient

/-- What a store tells units apart by. -/
def SourceUnit.key (u : SourceUnit) : List String × String := (u.modulePath, u.name)

/-! ## Units in a store -/

namespace UnitStore

variable {u v : SourceUnit} {s : UnitStore}

theorem sameUnit_iff : sameUnit u v = true ↔ u.key = v.key := by
  rw [sameUnit, Bool.and_eq_true, beq_iff_eq, beq_iff_eq, SourceUnit.key, SourceUnit.key,
    Prod.mk.injEq, and_comm]

theorem replace_of_new {units : List SourceUnit} (h : ∀ v ∈ units, v.key ≠ u.key) :
    replace u units = units ++ [u] := by
  induction units with
  | nil => rfl
  | cons v rest ih =>
    obtain ⟨hFirst, hRest⟩ := List.forall_mem_cons.mp h
    rw [replace, if_neg fun hSame => hFirst (sameUnit_iff.mp hSame), ih hRest, List.cons_append]

theorem write_of_new (h : ∀ v ∈ s.units, v.key ≠ u.key) :
    s.write u = (⟨s.units ++ [u]⟩, .written u.relativePath) := by
  have hNone : (s.units.find? fun v => sameUnit v u) = none :=
    List.find?_eq_none.mpr fun v hv hSame => h v hv (sameUnit_iff.mp hSame)
  simp only [write, hNone, replace_of_new h]

def Distinct (units : List SourceUnit) : Prop := (units.map SourceUnit.key).Nodup

theorem write_of_mem (hDistinct : Distinct s.units) (h : u ∈ s.units) :
    s.write u = (s, .unchanged u.relativePath) := by
  have hFound : (s.units.find? fun v => sameUnit v u) = some u :=
    find?_of_distinct hDistinct (fun _ _ => sameUnit_iff) h
  simp only [write, hFound, beq_self_eq_true, if_true]

/-- Units that are new to a store and to each other are all written. -/
theorem storeAll_of_new {units : List SourceUnit} (h : Distinct (s.units ++ units))
    (report : Report) :
    (storeAll sink s report units).1 = ⟨s.units ++ units⟩ ∧
      (storeAll sink s report units).2.result = .ok { report with
        generated := report.generated ++ units.map (·.name)
        written := report.written ++ units.map (·.relativePath) } := by
  induction units generalizing s report with
  | nil => simp [storeAll]
  | cons u rest ih =>
    have hNew : ∀ v ∈ s.units, v.key ≠ u.key := by
      rw [Distinct, List.map_append, List.nodup_append] at h
      exact fun v hv => h.2.2 _ (List.mem_map_of_mem hv) _ (by simp)
    have hStep : sink s u = (⟨s.units ++ [u]⟩, pure (.written u.relativePath)) := by
      rw [sink, write_of_new hNew]
    have hRest := ih (s := ⟨s.units ++ [u]⟩) (by simpa using h)
      (report.record u (.written u.relativePath))
    simpa [storeAll, hStep, Report.record] using hRest

/-- Units that a store holds already change nothing. -/
theorem storeAll_of_mem {units : List SourceUnit} (hDistinct : Distinct s.units)
    (h : ∀ u ∈ units, u ∈ s.units) (report : Report) :
    (storeAll sink s report units).1 = s ∧
      (storeAll sink s report units).2.result = .ok { report with
        generated := report.generated ++ units.map (·.name)
        unchanged := report.unchanged ++ units.map (·.relativePath) } := by
  induction units generalizing report with
  | nil => simp [storeAll]
  | cons u rest ih =>
    obtain ⟨hFirst, hRest⟩ := List.forall_mem_cons.mp h
    have hStep : sink s u = (s, pure (.unchanged u.relativePath)) := by
      rw [sink, write_of_mem hDistinct hFirst]
    have hMore := ih hRest (report.record u (.unchanged u.relativePath))
    simpa [storeAll, hStep, Report.record] using hMore

end UnitStore

namespace Generator

/-! ## One run -/

theorem unit?_key {g : Generator} {p : Plan} {u : SourceUnit} (h : g.unit? p = some u) :
    u.key = (p.interface.modulePath, p.interface.implName) := by
  obtain ⟨_, _, _, _, rfl⟩ := Emission.unit_eq_ok_iff.mp (unit?_eq_some_iff.mp h)
  rfl

theorem distinct_units (g : Generator) {plans : List Plan}
    (h : (plans.map fun p => (p.interface.modulePath, p.interface.name)).Nodup) :
    UnitStore.Distinct (plans.filterMap g.unit?) := by
  rw [List.Nodup, List.pairwise_map] at h
  rw [UnitStore.Distinct, List.Nodup, List.pairwise_map, List.pairwise_filterMap]
  refine h.imp fun {p q} hApart u hu v hv hSame => hApart ?_
  rw [unit?_key hu, unit?_key hv, Prod.mk.injEq] at hSame
  exact Prod.ext hSame.1 (String.append_left_inj _ |>.mp hSame.2)

theorem map_key_units {g : Generator} {plans : List Plan} {units : List SourceUnit}
    (h : plans.map g.unit? = units.map some) :
    units.map SourceUnit.key = plans.map fun p => (p.interface.modulePath, p.interface.implName) := by
  induction plans generalizing units with
  | nil =>
    obtain rfl := List.map_eq_nil_iff.mp h.symm
    rfl
  | cons p plans ih =>
    obtain ⟨u, rest, rfl, hUnit, hRest⟩ := List.map_eq_cons_iff.mp h.symm
    rw [List.map_cons, List.map_cons, unit?_key hUnit.symm, ih hRest.symm]

/-- A run fails and stores nothing, whatever the store, or it stores the units that it makes of the
files and then reports them or an error. -/
theorem runFiles_cases (g : Generator) (files : List SourceFile) :
    (∃ failure, ∀ {σ : Type} (sink : Sink σ) (s : σ), (g.runFiles sink s files).1 = s ∧
      (g.runFiles sink s files).2.result = .error failure) ∨
    ∃ a failed, (g.analyzeFiles files).result = .ok a ∧
      (failed = [] → a.plans.map g.unit? = (a.plans.filterMap g.unit?).map some) ∧
      ∀ {σ : Type} (sink : Sink σ) (s : σ) report,
        (storeAll sink s ⟨a.filesScanned, [], [], [], a.warnings⟩
          (a.plans.filterMap g.unit?)).2.result = .ok report →
        (g.runFiles sink s files).1 = (storeAll sink s ⟨a.filesScanned, [], [], [], a.warnings⟩
          (a.plans.filterMap g.unit?)).1 ∧
        (g.runFiles sink s files).2.result =
          match GenerationError.ofList? failed with
          | some e => .error (.error e)
          | none => .ok report := by
  cases hAnalysis : (g.analyzeFiles files).result with
  | error e => exact .inl ⟨.error e, fun sink s => writeAnalysis_of_error hAnalysis g sink s⟩
  | ok a =>
    have hRun := fun {σ : Type} (sink : Sink σ) s => writeAnalysis_of_ok hAnalysis g sink s
    cases hEmitted : (g.emit a.plans).result with
    | error failure =>
      refine .inl ⟨failure, fun sink s => ?_⟩
      rw [runFiles, (hRun sink s).1, (hRun sink s).2]
      exact write_of_error hEmitted sink s
    | ok emitted =>
      obtain ⟨units, failed⟩ := emitted
      obtain rfl := emit_eq_ok hEmitted
      refine .inr ⟨a, a.errors ++ failed, rfl, fun hNone => ?_, fun sink s report hReport => ?_⟩
      · obtain rfl := (List.append_eq_nil_iff.mp hNone).2
        exact emit_all hEmitted
      · rw [runFiles, (hRun sink s).1, (hRun sink s).2]
        exact ⟨(write_of_ok hEmitted sink s).1, (write_of_ok hEmitted sink s).2 report hReport⟩

/-! ## Runs one after the other -/

/-- What a store that was empty holds after a number of runs. -/
def storeAfter (g : Generator) (files : List SourceFile) : Nat → UnitStore
  | 0 => .empty
  | n + 1 => (g.runFiles UnitStore.sink (g.storeAfter files n) files).1

def resultAfter (g : Generator) (files : List SourceFile) (n : Nat) : Except EmitFailure Report :=
  (g.runFiles UnitStore.sink (g.storeAfter files n) files).2.result

/-- What a later run makes of the result of the first: it fails alike, or finds all units there. -/
def repeated : Except EmitFailure Report → Except EmitFailure Report
  | .ok report => .ok { report with written := [], unchanged := report.written }
  | .error failure => .error failure

/-- The report of a first run: every plan has a unit, and all of them are written. -/
structure ReportsFirst (g : Generator) (plans : List Plan) (units : List SourceUnit)
    (report : Report) : Prop where
  stored : plans.map g.unit? = units.map some
  generated : report.generated = plans.map (·.interface.implName)
  written : report.written = units.map (·.relativePath)
  unchanged : report.unchanged = []

/-- A run from the store that it leaves behind changes nothing any more. -/
theorem storeAfter_of_fixed {g : Generator} {files : List SourceFile}
    (h : (g.runFiles UnitStore.sink (g.storeAfter files 1) files).1 = g.storeAfter files 1)
    (n : Nat) : g.storeAfter files (n + 1) = g.storeAfter files 1 := by
  induction n with
  | zero => rfl
  | succ n ih => rw [storeAfter, ih, h]

/-- The first run makes the store what it is, and all later ones are the same. -/
theorem runFiles_repeats {g : Generator} {files : List SourceFile}
    (hApart : ∀ a, (g.analyzeFiles files).result = .ok a →
      (a.plans.map fun p => (p.interface.modulePath, p.interface.name)).Nodup) (n : Nat) :
    g.storeAfter files (n + 1) = g.storeAfter files 1 ∧
      g.resultAfter files (n + 1) = repeated (g.resultAfter files 0) ∧
      ∀ report, g.resultAfter files 0 = .ok report → ∃ a, (g.analyzeFiles files).result = .ok a ∧
        g.ReportsFirst a.plans (g.storeAfter files 1).units report := by
  rcases g.runFiles_cases files with ⟨failure, hFails⟩ | ⟨a, failed, hAnalysis, hAll, hRuns⟩
  · have hStore := storeAfter_of_fixed (hFails UnitStore.sink (g.storeAfter files 1)).1 n
    have hResult := fun n => (hFails UnitStore.sink (g.storeAfter files n)).2
    refine ⟨hStore, ?_, fun report hOk => ?_⟩
    · rw [resultAfter, resultAfter, hResult, hResult]
      rfl
    · rw [resultAfter, hResult] at hOk
      cases hOk
  · have hDistinct := g.distinct_units (hApart a hAnalysis)
    obtain ⟨hNew, hNewReport⟩ := UnitStore.storeAll_of_new (s := .empty)
      (by simpa [UnitStore.empty] using hDistinct) ⟨a.filesScanned, [], [], [], a.warnings⟩
    obtain ⟨hFirst, hFirstResult⟩ := hRuns UnitStore.sink .empty _ hNewReport
    have hHeld : g.storeAfter files 1 = ⟨a.plans.filterMap g.unit?⟩ := by
      rw [storeAfter, storeAfter, hFirst, hNew]
      simp [UnitStore.empty]
    obtain ⟨hKept, hKeptReport⟩ := UnitStore.storeAll_of_mem (s := g.storeAfter files 1)
      (by rw [hHeld]; exact hDistinct) (fun u hu => by rw [hHeld]; exact hu)
      ⟨a.filesScanned, [], [], [], a.warnings⟩
    obtain ⟨hLater, hLaterResult⟩ := hRuns UnitStore.sink (g.storeAfter files 1) _ hKeptReport
    have hStore := storeAfter_of_fixed (hLater.trans hKept) n
    refine ⟨hStore, ?_, fun report hOk => ?_⟩
    · rw [resultAfter, resultAfter, hStore, hLaterResult, storeAfter, hFirstResult]
      cases GenerationError.ofList? failed <;> rfl
    · rw [resultAfter, storeAfter, hFirstResult] at hOk
      match failed with
      | [] =>
        cases hOk
        have hPlans := hAll rfl
        have hNames := congrArg (List.map Prod.snd) (map_key_units hPlans)
        rw [List.map_map, List.map_map] at hNames
        exact ⟨a, hAnalysis, by rw [hHeld, hPlans], hNames, by rw [hHeld]; rfl, rfl⟩
      | [_] => cases hOk
      | _ :: _ :: _ => cases hOk

/-- Two services of one module: what the first run writes, the third finds unchanged. -/
theorem docsAndPosts_repeats :
    (shortGenerator.storeAfter docsAndPosts 1).units.map (·.key) =
        [(["docs"], "DocsImpl"), (["docs"], "PostsImpl")] ∧
      shortGenerator.storeAfter docsAndPosts 3 = shortGenerator.storeAfter docsAndPosts 1 ∧
      shortGenerator.resultAfter docsAndPosts 2 =
        repeated (shortGenerator.resultAfter docsAndPosts 0) := by
  have hKeys : (successes (shortGenerator.planned docsAndPosts)).map
      (fun p => (p.interface.modulePath, p.interface.name)) =
        [(["docs"], "Docs"), (["docs"], "Posts")] := by
    decide +kernel
  have hPlanned : (failures (shortGenerator.planned docsAndPosts)).isEmpty = true := by
    decide +kernel
  have hEmitted : (failures (shortGenerator.emitted docsAndPosts)).isEmpty = true := by
    decide +kernel
  have hApart : ∀ a, (shortGenerator.analyzeFiles docsAndPosts).result = .ok a →
      (a.plans.map fun p => (p.interface.modulePath, p.interface.name)).Nodup := by
    intro a hAnalysis
    rw [(results_of_no_failures (List.isEmpty_iff.mp hPlanned)
      (List.isEmpty_iff.mp hEmitted)).1] at hAnalysis
    cases hAnalysis
    rw [hKeys]
    decide
  exact ⟨by decide +kernel, (runFiles_repeats hApart 2).1, (runFiles_repeats hApart 1).2.1⟩

end Generator
end TraitClient
