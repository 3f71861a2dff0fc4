import TraitClient.Proofs.FormServices
import TraitClient.Proofs.PathSettings

/-!
# Spellings of path settings

For any namespace and runtime path there is a text with one service below that namespace and one form
below that runtime path.  It tells a bare spelling from any other: settings with the same paths do the
same with all parsed files exactly if each path is bare in both or in none, and there is only one bare
spelling of a path.
-/
namespace TraitClient

open Code (IsSegment)
open Source (parsePath?)
open Extraction (services)

/-! ## Files that show a spelling -/

namespace Source

theorem parsePath?_segments {text : String} {path : PathExpr} (h : parsePath? text = some path) :
    path.segments ≠ [] ∧ ∀ segment ∈ path.segments, segment.wellNamed = true := by
  obtain ⟨s, hLex, h⟩ := Option.bind_eq_some_iff.mp h
  obtain ⟨⟨found, tokens⟩, hRun, hPath⟩ := Option.bind_eq_some_iff.mp h
  cases hPath
  have hYields : Parser.Yields
      (Parser.plainPath (.ofTokens s) (Parser.innerBound (.ofTokens s)) false)
      fun path => path.segments ≠ [] ∧ ∀ segment ∈ path.segments, segment.wellNamed = true := by
    unfold Grammar.ofTokens
    exact Parser.Leaves.bind fun _ => Parser.yields_pathSegment.bind fun first hFirst =>
      Parser.yields_moreSegments.bind fun more hMore => Parser.yields_pure
        ⟨List.cons_ne_nil _ _, List.forall_mem_cons.mpr ⟨hFirst, hMore⟩⟩
  exact hYields.written.run? (Lexer.lex?_named hLex) hRun

end Source

section

variable {text : String} {path : Source.PathExpr}

theorem segments_of_parsePath? (h : parsePath? text = some path) :
    path.segments.map (·.name) ≠ [] ∧ ∀ name ∈ path.segments.map (·.name), IsSegment name := by
  obtain ⟨hNonempty, hNamed⟩ := Source.parsePath?_segments h
  refine ⟨by simpa using hNonempty, fun name hName => ?_⟩
  obtain ⟨segment, hSegment, rfl⟩ := List.mem_map.mp hName
  have hName := (Bool.and_eq_true_iff.mp (hNamed segment hSegment)).1
  exact Source.isSegment_iff.mp (Bool.and_eq_true_iff.mp hName).1

theorem withoutLeadingColons_bare (hText : IsBare text) (h : parsePath? text = some path) :
    withoutLeadingColons text = joinPath (path.segments.map (·.name)) := by
  have hUnbroken := withoutLeadingColons_joinPath
    fun s hs => ((segments_of_parsePath? h).2 s hs).unbroken
  rw [Source.parsePath?_bare hText h, ← hUnbroken]
  cases path.leadingColon with
  | true => simp [writtenPath, withoutLeadingColons, dropLeadingColons]
  | false => simp [writtenPath, hUnbroken]

theorem AnnotationTable.classify_imported (hText : IsBare text) (h : parsePath? text = some path)
    {name : String} {kind : AnnotationKind} (hName : (name, kind) ∈ annotationNames)
    {imports : Imports}
    (hTarget : imports.target? name = some (path.segments.map (·.name) ++ [name]))
    (arguments : Source.AttributeArguments) :
    (ofNamespace text).classify imports (imported name arguments) = some kind := by
  obtain ⟨hNonempty, hSegments⟩ := segments_of_parsePath? h
  have hSpace : ∀ s ∈ path.segments.map (·.name), Unbroken s := fun s hs => (hSegments s hs).unbroken
  have hBelow : ∀ s ∈ path.segments.map (·.name) ++ [name], Unbroken s := List.forall_mem_append.mpr
    ⟨hSpace, List.forall_mem_singleton.mpr (annotationNames_unbroken _ hName)⟩
  have hTable : ofNamespace text = ofNamespace (joinPath (path.segments.map (·.name))) := by
    rw [ofNamespace, ofNamespace, withoutLeadingColons_bare hText h,
      withoutLeadingColons_joinPath hSpace]
  have hCandidates : imports.candidates [name] false =
      [joinPath (path.segments.map (·.name) ++ [name])] := by
    simp only [Imports.candidates, Bool.false_eq_true, if_false, hTarget, List.append_nil]
  have hLookup := (lookup_eq_some_iff hNonempty hSpace hBelow).mpr ⟨name, hName, rfl⟩
  rw [classify, imported, hCandidates, List.findSome?_singleton, hTable, hLookup]

end

theorem not_isBare_of_blank {text : String} (h : ' ' ∈ text.toList) : ¬IsBare text := fun hBare =>
  (hBare ' ' h).ne (by decide) (by decide) (by decide) rfl

def formType (runtime : List String) : TypeRef :=
  .named (joinPath (formName runtime)) (writtenPath true (formName runtime))

def formMethod (runtime : List String) : Method where
  name := "send"
  declaredIn := "Api"
  verb := .post
  template := "/"
  parameters := [⟨"form", formType runtime, .body⟩]
  returnType := .unit
  modifiers := { multipart := true }
  signature := ⟨false, false, false⟩

/-- The method is faulty wherever it is taken for one, but not in the same way. -/
theorem fault?_formMethod (types : RuntimeTypes) (runtime : List String) :
    Validation.fault? types (formMethod runtime) =
      some (if types.isForm (formType runtime) then .notAsync
        else .multipartBodyType "form" (formType runtime)) := by
  have hNames : Template.placeholders "/" = [] := by decide +kernel
  have hPath : Validation.pathPlaceholders (formMethod runtime) = none := by
    simp [Validation.pathPlaceholders, formMethod, hNames, Validation.pathKeyFault?,
      Parameter.pathKey?, Validation.sortedNames]
  have hShape : Validation.multipartShape types (formMethod runtime) =
      Validation.require (types.isForm (formType runtime))
        (.multipartBodyType "form" (formType runtime)) := by
    simp [Validation.multipartShape, formMethod, Verb.allowsBody, Method.formFields, Method.parts,
      Method.bodies, Parameter.isFormField, Parameter.isPart, Parameter.isBody, formType,
      TypeRef.named]
  simp only [Validation.fault?, Validation.rules, List.findSome?_cons, hPath, hShape]
  cases h : types.isForm (formType runtime) <;> rfl

section

variable {text : String} {path : Source.PathExpr}

theorem methodOf?_formFunction (hText : IsBare text) (h : parsePath? text = some path)
    (runtime : List String) (tokens : Source.Tokens) {imports : Imports}
    (hTargets : ∀ name ∈ importedNames,
      imports.target? name = some (path.segments.map (·.name) ++ [name])) :
    Extraction.methodOf? (.ofNamespace text) imports "Api"
      (formFunction (formExpr runtime tokens)) = .ok (some (formMethod runtime)) := by
  have hKind {name : String} {kind : AnnotationKind} (hName : (name, kind) ∈ annotationNames)
      (hImported : name ∈ importedNames) (arguments : Source.AttributeArguments) :=
    AnnotationTable.classify_imported hText h hName (hTargets name hImported) arguments
  have hPost := @hKind "post" (.verb .post) (by decide) (by decide)
  have hMultipart := @hKind "multipart" (.modifier .multipart) (by decide) (by decide)
  have hBody := @hKind "body" (.binding .body) (by decide) (by decide)
  have hNotes : Extraction.notesFrom ((AnnotationTable.ofNamespace text).classify imports) ⟨[], {}⟩
      (formFunction (formExpr runtime tokens)).attributes = .ok
        ⟨[(.post, imported "post" (.list [.literal "\"/\""]))], { multipart := true }⟩ := by
    simp [formFunction, Extraction.notesFrom, Extraction.withModifier, hPost, hMultipart, bind,
      Except.bind]
  have hType : imports.resolve (formExpr runtime tokens) = .ok (formType runtime) := by
    have hQualified : imports.qualify (formName runtime) true = joinPath (formName runtime) := by
      cases runtime <;> rfl
    rw [formExpr, Imports.resolve_bareSegments imports tokens (by simp [formName]), hQualified]
    rfl
  have hBinding : Extraction.parameterBinding ((AnnotationTable.ofNamespace text).classify imports)
      (Extraction.defaultKey "form") [imported "body" .none] = .ok .body := by
    rw [Extraction.parameterBinding, Extraction.bindingKinds, hBody]
    rfl
  have hParameters : Extraction.parametersOf (.ofNamespace text) imports
      (formFunction (formExpr runtime tokens)).parameters = .ok (formMethod runtime).parameters := by
    simp [formFunction, formMethod, Extraction.parametersOf, Extraction.parameterOf, hType,
      hBinding, bind, Except.bind]
  rw [Extraction.methodOf?, hNotes, hParameters]
  rfl

theorem services_formFile (hText : IsBare text) (h : parsePath? text = some path)
    (runtime : List String) (tokens : Source.Tokens) :
    services (.ofNamespace text)
        [formFile (path.segments.map (·.name)) (formExpr runtime tokens)] =
      [pure { modulePath := ["api"], name := "Api", visibility := .everywhere,
              sourceFile := "src/api.rs", methods := [formMethod runtime], supertraits := [] }] := by
  let file := formFile (path.segments.map (·.name)) (formExpr runtime tokens)
  let e : Extraction.TraitEntry :=
    ⟨formService (formExpr runtime tokens), "src/api.rs", ["api"], .ofItems file.items⟩
  have hTargets : ∀ name ∈ importedNames,
      e.imports.target? name = some (path.segments.map (·.name) ++ [name]) :=
    formItems_target? _ (formExpr runtime tokens)
  have hTraits : (Extraction.TraitIndex.ofFiles [file]).traits = [e] := rfl
  have hService : Extraction.isService (.ofNamespace text) e = true := by
    have hKind := @AnnotationTable.classify_imported text path hText h "api_service" .apiService
      (by decide) e.imports (hTargets "api_service" (by decide)) .none
    rw [Extraction.isService, List.any_eq_true]
    exact ⟨_, List.mem_singleton_self _, decide_eq_true hKind⟩
  have hMethod := methodOf?_formFunction hText h runtime tokens hTargets
  let c : Extraction.Context := ⟨.ofNamespace text, .ofFiles [file]⟩
  have hOwn : Extraction.ownMethods c "Api" e false "Api" e.declaration.functions [] =
      pure [formMethod runtime] := by
    change Extraction.ownMethods c "Api" e false "Api" [formFunction (formExpr runtime tokens)] [] = _
    rw [Extraction.ownMethods, hMethod]
    rfl
  have hWalk : Extraction.collect c "Api" 2 e .empty =
      (Extraction.ownMethods c "Api" e false "Api" e.declaration.functions [] >>= fun methods =>
        pure ⟨methods, [e.cratePath], []⟩) := rfl
  rw [services, hTraits, List.filter_cons_of_pos hService, List.filter_nil, List.map_singleton]
  change [Extraction.collect c "Api" 2 e .empty >>= _] = _
  rw [hWalk, hOwn]
  rfl

theorem isForm_of_bare (hText : IsBare text) (h : parsePath? text = some path) :
    (RuntimeTypes.ofPath text).isForm (formType (path.segments.map (·.name))) = true := by
  have hNonempty := (segments_of_parsePath? h).1
  have hLongest : joinPath (formName (path.segments.map (·.name))) =
      withoutLeadingColons text ++ "::reqwest::multipart::" ++ "Form" := by
    rw [withoutLeadingColons_bare hText h, formName, List.append_cons _ "reqwest",
      List.append_cons _ "multipart", joinPath_snoc (by simp), joinPath_snoc (by simp),
      joinPath_snoc hNonempty]
    simp [String.append_assoc]
  rw [RuntimeTypes.isForm, formType, TypeRef.named, hLongest]
  simp [RuntimeTypes.ofPath, RuntimeTypes.spellings]

theorem isForm_of_not_bare (hText : ¬IsBare text) {runtime : List String} (hNonempty : runtime ≠ [])
    (hRuntime : ∀ s ∈ runtime, IsSegment s) :
    (RuntimeTypes.ofPath text).isForm (formType runtime) = false := by
  have hName := formName_segments hRuntime
  have hBare : IsTypeName (joinPath (formName runtime)) :=
    .inr (.inr (isBare_joinPath fun s hs => (hName s hs).token))
  have hOther : joinPath (formName runtime) ≠ "reqwest::multipart::" ++ "Form" := by
    have hJoined : "reqwest::multipart::" ++ "Form" = joinPath ["reqwest", "multipart", "Form"] := rfl
    rw [hJoined, Ne, joinPath_eq_iff (fun s hs => (hName s hs).unbroken)
      (fun s hs => (multipartForm_segments s hs).unbroken) (List.cons_ne_nil _ _), formName]
    simpa using hNonempty
  exact (RuntimeTypes.contains_spellings hText "Form" hBare).trans (decide_eq_false hOther)

end

/-! ## Spellings that matter -/

namespace Generator

variable {s s' : Settings} {g g' : Generator} {files : List SourceFile}

theorem firstError?_congr (hMode : g.settings.failFast = g'.settings.failFast)
    (h : g.analyzeFiles files = g'.analyzeFiles files) :
    firstError? (g.planned files) = firstError? (g'.planned files) := by
  have hResult := congrArg (·.result) h
  simp only [analyzeFiles_result, ← hMode] at hResult
  cases hFail : g.settings.failFast with
  | false =>
    rw [hFail, settle_keepGoing, settle_keepGoing] at hResult
    have hFailures := congrArg Analysis.errors (Except.ok.inj hResult)
    rw [firstError?_eq_head?, firstError?_eq_head?]
    exact congrArg List.head? hFailures
  | true =>
    rw [hFail, settle_failFast, settle_failFast] at hResult
    cases hFirst : firstError? (g.planned files) <;>
      cases hFirst' : firstError? (g'.planned files) <;> rw [hFirst, hFirst'] at hResult
    · cases hResult
    · cases hResult
    · cases hResult
      rfl

theorem planned_formFile (hg : ofSettings s = .ok g) (hSpace : IsBare s.attributeNamespace)
    {path : Source.PathExpr} (h : parsePath? s.attributeNamespace = some path)
    (runtime : List String) (tokens : Source.Tokens) :
    g.planned [formFile (path.segments.map (·.name)) (formExpr runtime tokens)] =
      [.error (.validation ⟨"Api", "send", if g.types.isForm (formType runtime) then .notAsync
        else .multipartBodyType "form" (formType runtime)⟩)] := by
  obtain ⟨_, _, _, hTable, _⟩ := ofSettings_eq_ok hg
  rw [planned, hTable, services_formFile hSpace h]
  have hFault := fault?_formMethod g.types runtime
  have hName : (formMethod runtime).name = "send" := rfl
  simp [Plan.ofInterface, Validation.violation?, hFault, hName, Except.bind, pure]

/-- Whether all that is asked of parsed files is answered alike. -/
def SameAnalysis (g g' : Generator) : Prop :=
  ∀ files, (∀ f ∈ files, f.IsParsed) → g.analyzeFiles files = g'.analyzeFiles files

section

variable (hSame : s.SamePaths s') (hg : ofSettings s = .ok g) (hg' : ofSettings s' = .ok g')
  (hAnalysis : g.SameAnalysis g')

include hSame hg hg' hAnalysis

/-- A file that is parsed from a text and has a form below the paths of both settings. -/
theorem exists_formFile {path runtime : Source.PathExpr}
    (hPath : parsePath? s.attributeNamespace = some path)
    (hRuntime : parsePath? s.runtimePath = some runtime) :
    ∃ tokens file,
      file = formFile (path.segments.map (·.name)) (formExpr (runtime.segments.map (·.name)) tokens) ∧
        file.IsParsed ∧ firstError? (g.planned [file]) = firstError? (g'.planned [file]) := by
  obtain ⟨_, _, hSettings, _⟩ := ofSettings_eq_ok hg
  obtain ⟨_, _, hSettings', _⟩ := ofSettings_eq_ok hg'
  obtain ⟨tokens, hParsed⟩ :=
    formFile_isParsed (segments_of_parsePath? hPath).2 (segments_of_parsePath? hRuntime).2
  refine ⟨tokens, _, rfl, hParsed, firstError?_congr ?_ ?_⟩
  · rw [hSettings, hSettings', hSame.failFast]
  · exact hAnalysis _ (List.forall_mem_singleton.mpr hParsed)

/-- A bare namespace finds a service that no other spelling of it finds. -/
theorem bareSpace_of_sameAnalysis (hSpace : IsBare s.attributeNamespace) :
    IsBare s'.attributeNamespace := by
  by_contra hSpace'
  obtain ⟨hSome, hRuntime, _⟩ := ofSettings_eq_ok hg
  obtain ⟨_, _, _, hTable', _⟩ := ofSettings_eq_ok hg'
  obtain ⟨path, hPath⟩ := Option.isSome_iff_exists.mp hSome
  obtain ⟨tokens, _, rfl, hParsed, hFirst⟩ := exists_formFile hSame hg hg' hAnalysis hPath hRuntime
  have hNone := AnnotationTable.services_of_not_bare hSpace'
    (List.forall_mem_singleton.mpr hParsed.lexed)
  rw [planned_formFile hg hSpace hPath] at hFirst
  rw [planned, hTable', hNone] at hFirst
  cases hFirst

/-- Below a bare runtime path there is a form that is below no other spelling of it. -/
theorem bareRuntime_of_sameAnalysis (hSpace : IsBare s.attributeNamespace)
    (hRuntime : IsBare s.runtimePath) : IsBare s'.runtimePath := by
  by_contra hRuntime'
  have hSpace' := bareSpace_of_sameAnalysis hSame hg hg' hAnalysis hSpace
  obtain ⟨hSome, hRuntimePath, _, _, hTypes⟩ := ofSettings_eq_ok hg
  obtain ⟨_, _, _, _, hTypes'⟩ := ofSettings_eq_ok hg'
  obtain ⟨path, hPath⟩ := Option.isSome_iff_exists.mp hSome
  obtain ⟨tokens, _, rfl, _, hFirst⟩ := exists_formFile hSame hg hg' hAnalysis hPath hRuntimePath
  obtain ⟨hNonempty, hSegments⟩ := segments_of_parsePath? hRuntimePath
  have hForm := isForm_of_bare hRuntime hRuntimePath
  have hForm' := isForm_of_not_bare hRuntime' hNonempty hSegments
  rw [← hTypes] at hForm
  rw [← hTypes'] at hForm'
  rw [planned_formFile hg hSpace hPath, planned_formFile hg' hSpace' (hSame.attributeNamespace ▸ hPath),
    hForm, hForm'] at hFirst
  cases hFirst

theorem spelledAlike_of_sameAnalysis : s.SpelledAlike s' := by
  have hAnalysis' : g'.SameAnalysis g := fun files hFiles => (hAnalysis files hFiles).symm
  refine ⟨⟨bareSpace_of_sameAnalysis hSame hg hg' hAnalysis,
    bareSpace_of_sameAnalysis hSame.symm hg' hg hAnalysis'⟩, fun hSpace => ?_⟩
  have hSpace' := bareSpace_of_sameAnalysis hSame hg hg' hAnalysis hSpace
  exact ⟨bareRuntime_of_sameAnalysis hSame hg hg' hAnalysis hSpace,
    bareRuntime_of_sameAnalysis hSame.symm hg' hg hAnalysis' hSpace'⟩

end

/-- Where two settings have the same paths, the same units are emitted from plans, but the plans are
the same for all parsed files exactly if each path is bare in both settings or in none.  A namespace
that is not bare has no plans at all. -/
theorem samePaths_spelling (hSame : s.SamePaths s') (hg : ofSettings s = .ok g)
    (hg' : ofSettings s' = .ok g') :
    (∀ plans, g.emit plans = g'.emit plans) ∧
      (g.SameAnalysis g' ↔ s.SpelledAlike s') ∧
      (s.SpelledAlike s' → g.SameRuns g') ∧
      (¬IsBare s.attributeNamespace → ∀ files, (∀ f ∈ files, f.Lexed) →
        (g.analyzeFiles files).result = .ok ⟨files.length, [], [], []⟩) := by
  obtain ⟨_, hRuntime, hSettings, _⟩ := ofSettings_eq_ok hg
  obtain ⟨_, hRuntime', hSettings', _⟩ := ofSettings_eq_ok hg'
  have hMode : g.settings.failFast = g'.settings.failFast := by
    rw [hSettings, hSettings', hSame.failFast]
  have hExclude : g.settings.exclude = g'.settings.exclude := by
    rw [hSettings, hSettings', hSame.exclude]
  have hRuntimes : g.runtime = g'.runtime :=
    Option.some.inj (hRuntime.symm.trans (hSame.runtimePath.trans hRuntime'))
  have hEmit := emit_congr hMode hRuntimes
  have hAlike (hSpelled : s.SpelledAlike s') (files : List SourceFile)
      (hFiles : ∀ f ∈ files, f.Lexed) : g.analyzeFiles files = g'.analyzeFiles files :=
    analyzeFiles_of_spelledAlike hSame hg hg' hSpelled hFiles
  refine ⟨hEmit, ⟨spelledAlike_of_sameAnalysis hSame hg hg', fun hSpelled files hFiles => ?_⟩,
    fun hSpelled => SameRuns.of_analyzed hMode hExclude hEmit (hAlike hSpelled),
    fun hSpace files hFiles => analyzeFiles_of_not_bare hg hSpace hFiles⟩
  exact hAlike hSpelled files fun f hf => (hFiles f hf).lexed

def lonePath (name : String) : Source.PathExpr := ⟨[.ident name], false, [.mk name .none]⟩

def isLonePath (name : String) : Option Source.PathExpr → Bool
  | some ⟨[.ident token], false, [.mk segment .none]⟩ => token == name && segment == name
  | _ => false

theorem eq_lonePath {name : String} {o : Option Source.PathExpr} (h : isLonePath name o = true) :
    o = some (lonePath name) := by
  unfold isLonePath at h
  split at h
  · obtain ⟨hToken, hSegment⟩ := Bool.and_eq_true_iff.mp h
    rw [beq_iff_eq.mp hToken, beq_iff_eq.mp hSegment, lonePath]
  · cases h

/-- A generator whose paths are `api` and `rt` in some spelling. -/
def spelled (attributeNamespace runtimePath : String) : Generator where
  settings := { attributeNamespace, runtimePath }
  annotations := .ofNamespace attributeNamespace
  types := .ofPath runtimePath
  runtime := lonePath "rt"

theorem pathSetting_lonePath {setting value name : String}
    (h : isLonePath name (parsePath? value) = true) :
    pathSetting setting value = .ok (lonePath name) := by
  have hPath := eq_lonePath h
  unfold pathSetting
  rw [hPath]

theorem ofSettings_spelled {attributeNamespace runtimePath : String}
    (hSpace : isLonePath "api" (parsePath? attributeNamespace) = true)
    (hRuntime : isLonePath "rt" (parsePath? runtimePath) = true) :
    ofSettings (spelled attributeNamespace runtimePath).settings =
      .ok (spelled attributeNamespace runtimePath) := by
  have hFirst : pathSetting "namespace"
      (spelled attributeNamespace runtimePath).settings.attributeNamespace = .ok (lonePath "api") :=
    pathSetting_lonePath hSpace
  have hSecond : pathSetting "runtime path"
      (spelled attributeNamespace runtimePath).settings.runtimePath = .ok (lonePath "rt") :=
    pathSetting_lonePath hRuntime
  unfold ofSettings
  rw [hFirst, hSecond]
  rfl

theorem samePaths_spelled {attributeNamespace runtimePath attributeNamespace' runtimePath' : String}
    (hSpace : isLonePath "api" (parsePath? attributeNamespace) = true)
    (hRuntime : isLonePath "rt" (parsePath? runtimePath) = true)
    (hSpace' : isLonePath "api" (parsePath? attributeNamespace') = true)
    (hRuntime' : isLonePath "rt" (parsePath? runtimePath') = true) :
    (spelled attributeNamespace runtimePath).settings.SamePaths
      (spelled attributeNamespace' runtimePath').settings :=
  ⟨(eq_lonePath hSpace).trans (eq_lonePath hSpace').symm,
    (eq_lonePath hRuntime).trans (eq_lonePath hRuntime').symm, rfl, rfl, rfl⟩

theorem spacedRuntimes_sameRuns :
    (spelled "api" " rt").settings.SamePaths (spelled "api" "rt /* */").settings ∧
      ofSettings (spelled "api" " rt").settings = .ok (spelled "api" " rt") ∧
      ofSettings (spelled "api" "rt /* */").settings = .ok (spelled "api" "rt /* */") ∧
      (spelled "api" " rt").SameRuns (spelled "api" "rt /* */") := by
  have hSpace : isLonePath "api" (parsePath? "api") = true := by decide +kernel
  have hBlank : isLonePath "rt" (parsePath? " rt") = true := by decide +kernel
  have hComment : isLonePath "rt" (parsePath? "rt /* */") = true := by decide +kernel
  have hSame := samePaths_spelled hSpace hBlank hSpace hComment
  have hFirst := ofSettings_spelled hSpace hBlank
  have hSecond := ofSettings_spelled hSpace hComment
  have hNone : IsBare " rt" ↔ IsBare "rt /* */" :=
    iff_of_false (not_isBare_of_blank (by decide)) (not_isBare_of_blank (by decide))
  exact ⟨hSame, hFirst, hSecond,
    (samePaths_spelling hSame hFirst hSecond).2.2.1 ⟨.rfl, fun _ => hNone⟩⟩

theorem isParsed_fileOf {path text : String} {modulePath : List String}
    (h : (Source.parseFile? text).isSome = true) : (fileOf path modulePath text).IsParsed := by
  obtain ⟨items, hItems⟩ := Option.isSome_iff_exists.mp h
  exact ⟨text, by rw [fileOf, hItems, Option.getD_some]⟩

def docsFile : SourceFile :=
  fileOf "src/docs.rs" ["docs"] "#[api::api_service] trait Docs \x7b\x7d"

/-- With a blank behind the namespace the service is not found any more. -/
theorem spacedNamespace_differs :
    (spelled "api" "rt").settings.SamePaths (spelled "api " "rt").settings ∧
      ofSettings (spelled "api" "rt").settings = .ok (spelled "api" "rt") ∧
      ofSettings (spelled "api " "rt").settings = .ok (spelled "api " "rt") ∧ docsFile.IsParsed ∧
      (∃ p, ((spelled "api" "rt").analyzeFiles [docsFile]).result = .ok ⟨1, [p], [], []⟩) ∧
      ((spelled "api " "rt").analyzeFiles [docsFile]).result = .ok ⟨1, [], [], []⟩ := by
  have hSpace : isLonePath "api" (parsePath? "api") = true := by decide +kernel
  have hBlank : isLonePath "api" (parsePath? "api ") = true := by decide +kernel
  have hRuntime : isLonePath "rt" (parsePath? "rt") = true := by decide +kernel
  have hSpaced := ofSettings_spelled hBlank hRuntime
  have hParsed : docsFile.IsParsed := isParsed_fileOf (by decide +kernel)
  have hPlanned : (failures ((spelled "api" "rt").planned [docsFile])).isEmpty = true ∧
      (successes ((spelled "api" "rt").planned [docsFile])).length = 1 := by
    decide +kernel
  obtain ⟨p, hPlan⟩ := List.length_eq_one_iff.mp hPlanned.2
  have hAnalysis := analyzeFiles_of_no_failures (List.isEmpty_iff.mp hPlanned.1)
  rw [hPlan] at hAnalysis
  have hNotBare : ¬IsBare "api " := not_isBare_of_blank (by decide)
  exact ⟨samePaths_spelled hSpace hRuntime hBlank hRuntime, ofSettings_spelled hSpace hRuntime,
    hSpaced, hParsed, ⟨p, hAnalysis⟩,
    analyzeFiles_of_not_bare hSpaced hNotBare (List.forall_mem_singleton.mpr hParsed.lexed)⟩

end Generator
end TraitClient