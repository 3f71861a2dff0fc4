import TraitClient.Proofs.ItemReading
import TraitClient.Proofs.ServiceNames
import TraitClient.Proofs.StoredUnits

/-!
# Services that can be emitted

A plan whose names can be written has a unit: every word of its code is a token, and the code is read
as a file.  The one name that the code cannot have is that of a factory for a trait with a raw name,
where the mark of the raw name would stand behind a prefix.
-/
namespace TraitClient

open Code (IsPath Word)

namespace Emission

variable {runtime : Source.PathExpr} {types : RuntimeTypes} {p : Plan}

theorem ne_inferred_of_isPath {path : String} (h : IsPath path) : path ≠ inferred := by
  rintro rfl
  have hSegments : Code.pathSegments inferred = ["_"] := by decide
  have hWord := (h.segments "_" (by simp [hSegments])).word
  exact absurd hWord (by decide)

theorem unit_of_spelled (hRuntime : runtime.IsPlain) (h : p.interface.Spelled) (hSound : p.Sound types)
    (hPaths : ∀ path ∈ p.interface.supertraits, IsPath path)
    (hRaw : Naming.isRaw p.interface.name = false) :
    ∃ u, unit runtime p.interface p.encodings = .ok u := by
  have hLegible := legible_items h hSound hRaw hPaths
  have hWords : Code.firstBad? (code runtime p.interface p.encodings).words = none :=
    Code.firstBad?_eq_none_iff.mpr (Code.areTokens_flatMap fun item hItem =>
      (hLegible item hItem).areTokens)
  have hFile : (Source.parseItems? (code runtime p.interface p.encodings).tokens).isSome = true :=
    Code.Unit.isFile hRuntime hLegible
  have hTraits : ∀ g ∈ traitGroups p.interface p.encodings, g.trait ≠ inferred := by
    intro g hg
    have hTrait : g.trait ∈ p.interface.name :: p.interface.supertraits :=
      (Extraction.traitGroups_blocks p.encodings h.declared).1 ▸ List.mem_map_of_mem hg
    rcases List.mem_cons.mp hTrait with hOwn | hSuper
    · exact hOwn ▸ ne_inferred_of_isPath h.name.isPath
    · exact ne_inferred_of_isPath (hPaths _ hSuper)
  exact ⟨_, unit_eq_ok_iff.mpr ⟨hSound.encoded.length_eq.symm, hWords, hFile, hTraits, rfl⟩⟩

theorem unit_of_badWord {i : Interface} {encodings : List BodyEncoding}
    (hLength : encodings.length = i.methods.length) {w : Word}
    (h : Code.firstBad? (code runtime i encodings).words = some w) :
    unit runtime i encodings = .error (.badWord w) := by
  unfold code at h
  simp only [unit, hLength, ne_eq, not_true_eq_false, if_false, h]

/-- A factory for a trait with a raw name has a name that is no token, whatever else the code has. -/
theorem unit_of_raw {i : Interface} {encodings : List BodyEncoding}
    (hLength : encodings.length = i.methods.length) (hName : (Word.ident i.name).isToken = true)
    (hRaw : Naming.isRaw i.name = true) : ∃ w, unit runtime i encodings = .error (.badWord w) := by
  have hFactory : (Word.ident i.factoryName).isToken ≠ true := by
    rw [Ne, Interface.factoryName_isToken_iff hName, hRaw]
    decide
  have hMem : Word.ident i.factoryName ∈ (code runtime i encodings).words := by
    refine List.mem_flatMap.mpr ⟨factoryItem i, by simp [code, items], ?_⟩
    simp [factoryItem, Code.Item.words, Code.Function.words, plainFunction]
  cases hBad : Code.firstBad? (code runtime i encodings).words with
  | none => exact absurd (Code.firstBad?_eq_none_iff.mp hBad _ hMem) hFactory
  | some w => exact ⟨w, unit_of_badWord hLength hBad⟩

end Emission

namespace Extraction

instance (c : Context) (i : Interface) : Decidable (HasSpellings c i) :=
  decidable_of_iff
    ((∀ t ∈ c.index.traits, t.cratePath ∈ i.qualifiedName :: i.supertraits →
        ∀ f ∈ t.declaration.functions, carriesVerb c t f = true → ∀ type ∈ f.types,
          ∀ part ∈ type.parts, part.hasSpelling t.imports (i.supertraits.contains t.cratePath) = true) ∧
      ∀ t ∈ c.index.traits, t.cratePath ∈ i.supertraits → ∀ s ∈ t.modulePath,
        Source.isSegment s = true)
    ⟨fun h => ⟨h.1, fun t ht hSuper s hs => Source.isSegment_iff.mp (h.2 t ht hSuper s hs)⟩,
      fun h => ⟨h.types, fun t ht hSuper s hs => Source.isSegment_iff.mpr (h.modules t ht hSuper s hs)⟩⟩

end Extraction

namespace Generator

variable {g : Generator} {files : List SourceFile} {a : Analysis}

theorem analyzeFiles_plans (h : (g.analyzeFiles files).result = .ok a) :
    a.plans = successes (g.planned files) := by
  rw [analyzeFiles_result] at h
  cases hMode : g.settings.failFast with
  | false =>
    rw [hMode, settle_keepGoing] at h
    cases h
    rfl
  | true =>
    rw [hMode, settle_failFast] at h
    cases hFirst : firstError? (g.planned files) with
    | some e =>
      rw [hFirst] at h
      cases h
    | none =>
      rw [hFirst] at h
      cases h
      rfl

theorem exists_service_of_plan (h : (g.analyzeFiles files).result = .ok a) {p : Plan}
    (hp : p ∈ a.plans) : ∃ e ∈ (Extraction.TraitIndex.ofFiles files).traits,
      (Extraction.interfaceOf ⟨g.annotations, .ofFiles files⟩ e).result = .ok p.interface ∧
      p.Sound g.types := by
  rw [analyzeFiles_plans h] at hp
  obtain ⟨attempt, hAttempt, hPlan⟩ := List.mem_filterMap.mp hp
  obtain ⟨service, hService, rfl⟩ := List.mem_map.mp hAttempt
  obtain ⟨e, he, rfl⟩ := List.mem_map.mp hService
  refine ⟨e, (List.mem_filter.mp he).1, ?_⟩
  cases hResult : (Extraction.interfaceOf ⟨g.annotations, .ofFiles files⟩ e).result with
  | error err =>
    rw [hResult] at hPlan
    cases hPlan
  | ok i =>
    rw [hResult] at hPlan
    cases hValid : Plan.ofInterface g.types i with
    | error err =>
      rw [Except.bind, hValid] at hPlan
      cases hPlan
    | ok q =>
      rw [Except.bind, hValid] at hPlan
      obtain rfl := Option.some.inj hPlan
      obtain ⟨rfl, hSound⟩ := Plan.ofInterface_sound hValid
      exact ⟨rfl, hSound⟩

/-- What becomes of some plans for services whose traits are in an index. -/
structure EmitsPlans (g : Generator) (index : Extraction.TraitIndex) (plans : List Plan) : Prop where
  /-- A raw trait ends the run. -/
  raw : ∀ p ∈ plans, Naming.isRaw p.interface.name = true →
    ∃ w, Emission.unit g.runtime p.interface p.encodings = .error (.badWord w)
  /-- Any other service has a unit if its hierarchy can be spelled. -/
  spelled : ∀ p ∈ plans, Extraction.HasSpellings ⟨g.annotations, index⟩ p.interface →
    Naming.isRaw p.interface.name = false →
    ∃ u, Emission.unit g.runtime p.interface p.encodings = .ok u
  /-- Emission turns all plans into units, without an error, exactly if no trait is raw. -/
  emits_iff : (∀ p ∈ plans, Extraction.HasSpellings ⟨g.annotations, index⟩ p.interface) →
    ((∃ units, (g.emit plans).result = .ok (units, []) ∧ units.length = plans.length) ↔
      ∀ p ∈ plans, Naming.isRaw p.interface.name = false)

theorem exists_units (g : Generator) {plans : List Plan}
    (h : ∀ p ∈ plans, ∃ u, Emission.unit g.runtime p.interface p.encodings = .ok u) :
    ∃ units, (g.emit plans).result = .ok (units, []) ∧ units.length = plans.length := by
  have hNone : failures (plans.map fun p => Emission.unit g.runtime p.interface p.encodings) = [] := by
    refine List.eq_nil_iff_forall_not_mem.mpr fun failure hFailure => ?_
    obtain ⟨p, hp, hUnit⟩ := List.mem_map.mp (mem_failures.mp hFailure)
    obtain ⟨u, hOk⟩ := h p hp
    rw [hOk] at hUnit
    cases hUnit
  have hNoBadWord : ∀ w, .error (.badWord w) ∉
      plans.map fun p => Emission.unit g.runtime p.interface p.encodings := by
    intro w hMem
    rw [← mem_failures, hNone] at hMem
    cases hMem
  obtain ⟨units, hUnits, hGood, hBad⟩ := unitsUpToBadWord_of_noBadWord g hNoBadWord
  have hLength := length_successes_failures
    (plans.map fun p => Emission.unit g.runtime p.interface p.encodings)
  rw [hNone, List.length_nil, Nat.add_zero, List.length_map, ← hGood] at hLength
  refine ⟨successes units, ?_, hLength⟩
  rw [emit_result hUnits, settle_of_no_failures (hBad.trans (congrArg _ hNone))]
  rfl

theorem emit_badWord {p : Plan} {plans : List Plan} {w : Word}
    (h : Emission.unit g.runtime p.interface p.encodings = .error (.badWord w)) :
    (g.emit (p :: plans)).result = .error (.badWord w) := by
  rw [emit, unitsUpToBadWord, h]
  have hNone : failures ([] : List (Except GenerationError SourceUnit)) = [] := rfl
  dsimp only
  rw [settle_of_no_failures hNone]

theorem emitsPlans (hRuntime : g.runtime.IsPlain)
    (hFiles : ∀ f ∈ files, Source.Item.allWellNamed f.items = true)
    (hAnalysis : (g.analyzeFiles files).result = .ok a) :
    g.EmitsPlans (.ofFiles files) a.plans := by
  have hIndex := Extraction.TraitIndex.ofFiles_wellNamed hFiles
  have hRaw : ∀ p ∈ a.plans, Naming.isRaw p.interface.name = true →
      ∃ w, Emission.unit g.runtime p.interface p.encodings = .error (.badWord w) := by
    intro p hp hRaw
    obtain ⟨e, he, hService, hSound⟩ := exists_service_of_plan hAnalysis hp
    have hName : Code.IsName e.declaration.name :=
      Source.isName_iff.mp (Bool.and_eq_true_iff.mp (hIndex e he).declaration).1
    rw [← (Extraction.interfaceOf_gathers hService).1] at hName
    exact Emission.unit_of_raw hSound.encoded.length_eq.symm hName.token hRaw
  have hSpelled : ∀ p ∈ a.plans, Extraction.HasSpellings ⟨g.annotations, .ofFiles files⟩ p.interface →
      Naming.isRaw p.interface.name = false →
      ∃ u, Emission.unit g.runtime p.interface p.encodings = .ok u := by
    intro p hp hSpellings hNotRaw
    obtain ⟨e, he, hService, hSound⟩ := exists_service_of_plan hAnalysis hp
    obtain ⟨hNames, hPaths⟩ := Extraction.interfaceOf_spelled hIndex he hService hSpellings
    exact Emission.unit_of_spelled hRuntime hNames hSound hPaths hNotRaw
  refine ⟨hRaw, hSpelled, fun hSpellings => ⟨?_, fun hNotRaw => ?_⟩⟩
  · rintro ⟨units, hUnits, hLength⟩ p hp
    rw [emit_eq_ok hUnits, List.filterMap_length_eq_length] at hLength
    obtain ⟨u, hUnit⟩ := Option.isSome_iff_exists.mp (hLength p hp)
    rw [Bool.eq_false_iff]
    intro hIsRaw
    obtain ⟨w, hBad⟩ := hRaw p hp hIsRaw
    rw [unit?_eq_some_iff.mp hUnit] at hBad
    cases hBad
  · exact g.exists_units fun p hp => hSpelled p hp (hSpellings p hp) (hNotRaw p hp)

def fileOf (path : String) (modulePath : List String) (text : String) : SourceFile :=
  ⟨path, modulePath, (Source.parseFile? text).getD []⟩

def pingFiles : List SourceFile :=
  [fileOf "src/base.rs" ["base"]
      ("use api::get; pub struct E; pub trait Base \x7b #[get(\"/ping\")] " ++
        "async fn ping(&self) -> Result<Option<String>, E>; \x7d"),
    fileOf "src/docs.rs" ["docs"]
      "use crate::base::Base; #[api::api_service] pub trait Docs : Base \x7b\x7d"]

set_option maxRecDepth 100000 in
theorem pingFiles_emitted :
    (successes (shortGenerator.planned pingFiles)).map (·.interface.supertraits) =
        [["crate::base::Base"]] ∧
      ∃ units, (shortGenerator.emit (successes (shortGenerator.planned pingFiles))).result =
        .ok (units, []) ∧ units.length = 1 := by
  have hComputed : pingFiles.all (Source.Item.allWellNamed ·.items) = true ∧
      (failures (shortGenerator.planned pingFiles)).isEmpty = true ∧
      (successes (shortGenerator.planned pingFiles)).map (·.interface.supertraits) =
        [["crate::base::Base"]] ∧
      (successes (shortGenerator.planned pingFiles)).all (fun p => !Naming.isRaw p.interface.name &&
        decide (Extraction.HasSpellings ⟨shortGenerator.annotations, .ofFiles pingFiles⟩
          p.interface)) = true := by
    decide +kernel
  obtain ⟨hFiles, hPlanned, hSuper, hPlans⟩ := hComputed
  have hPlan : ∀ p ∈ successes (shortGenerator.planned pingFiles),
      Naming.isRaw p.interface.name = false ∧
        Extraction.HasSpellings ⟨shortGenerator.annotations, .ofFiles pingFiles⟩ p.interface := by
    intro p hp
    simpa only [Bool.and_eq_true, Bool.not_eq_true', decide_eq_true_eq] using
      List.all_eq_true.mp hPlans p hp
  have hRuntime : shortGenerator.runtime.IsPlain :=
    ⟨rfl, by decide, fun name hName => Source.isSegment_iff.mp (by
      obtain rfl : name = "rt" := List.mem_singleton.mp hName
      decide), .inr (by decide)⟩
  have hEmits := emitsPlans hRuntime (List.all_eq_true.mp hFiles)
    (analyzeFiles_of_no_failures (List.isEmpty_iff.mp hPlanned))
  dsimp only at hEmits
  obtain ⟨units, hUnits, hLength⟩ :=
    (hEmits.emits_iff fun p hp => (hPlan p hp).2).mpr fun p hp => (hPlan p hp).1
  have hOne := congrArg List.length hSuper
  rw [List.length_map, ← hLength] at hOne
  exact ⟨hSuper, units, hUnits, hOne⟩

def rawFiles : List SourceFile :=
  [fileOf "src/api.rs" ["api"] "#[api::api_service] pub trait r#Api \x7b\x7d"]

set_option maxRecDepth 100000 in
theorem rawFiles_not_emitted :
    ∃ a, (shortGenerator.analyzeFiles rawFiles).result = .ok a ∧
      a.plans.map (·.interface.name) = ["r#Api"] ∧
      (shortGenerator.emit a.plans).result = .error (.badWord (.ident "create_r#api")) := by
  have hComputed : (failures (shortGenerator.planned rawFiles)).isEmpty = true ∧
      (successes (shortGenerator.planned rawFiles)).map (·.interface.name) = ["r#Api"] ∧
      (shortGenerator.emitted rawFiles).all (fun
        | .error (.badWord w) => w == .ident "create_r#api"
        | _ => false) = true := by
    decide +kernel
  obtain ⟨hPlanned, hNames, hEmitted⟩ := hComputed
  refine ⟨_, analyzeFiles_of_no_failures (List.isEmpty_iff.mp hPlanned), ?_⟩
  dsimp only
  obtain ⟨p, hPlans, -⟩ := List.map_eq_singleton_iff.mp hNames
  rw [emitted, hPlans, List.map_singleton, List.all_cons, List.all_nil, Bool.and_true] at hEmitted
  refine ⟨hNames, ?_⟩
  rw [hPlans]
  split at hEmitted
  · rename_i hUnit
    obtain rfl := eq_of_beq hEmitted
    exact emit_badWord hUnit
  · cases hEmitted

end Generator
end TraitClient
