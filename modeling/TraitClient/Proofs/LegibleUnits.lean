import TraitClient.Generation.Analysis
import TraitClient.Proofs.DeclaredEndpoints
import TraitClient.Proofs.LegibleMethods
import TraitClient.Proofs.PathText

/-!
# Generated items are legible

The items of a plan are legible if its methods are spelled well, if its trait is not raw, and if the
code can name its supertraits by their paths.
-/
namespace TraitClient

open Code (IsName IsPath IsTyped Expr Statement)

namespace BodyEncoding

theorem map_filterMap_subset {β : Type} {spec? : Parameter → Option β} {name : β → String}
    (h : ∀ p s, spec? p = some s → name s = p.name) (ps : List Parameter) :
    (ps.filterMap spec?).map name ⊆ ps.map (·.name) := by
  intro n hn
  obtain ⟨s, hs, rfl⟩ := List.mem_map.mp hn
  obtain ⟨p, hp, hSpec⟩ := List.mem_filterMap.mp hs
  exact h p s hSpec ▸ List.mem_map_of_mem hp

theorem fieldSpec?_parameter (p : Parameter) (s : FieldSpec) (h : fieldSpec? p = some s) :
    s.parameter = p.name := by
  unfold fieldSpec? at h
  split at h
  · cases h
    rfl
  · cases h

theorem mapSpec?_parameter (p : Parameter) (s : MapSpec) (h : mapSpec? p = some s) :
    s.parameter = p.name := by
  unfold mapSpec? at h
  split at h
  · cases h
    rfl
  · cases h

theorem partSpec?_parameter {types : RuntimeTypes} (p : Parameter) (s : PartSpec)
    (h : partSpec? types p = some s) : s.parameter = p.name := by
  obtain ⟨kind, _, rfl⟩ := Option.map_eq_some_iff.mp h
  rfl

theorem EncodedAs.parameterNames_subset {types : RuntimeTypes} {m : Method} {e : BodyEncoding}
    (h : EncodedAs types m e) : e.parameterNames ⊆ m.parameters.map (·.name) := by
  have hBody {body : Parameter} (hBodies : m.bodies = [body]) :
      [body.name] ⊆ m.parameters.map (·.name) := by
    have hMem : body ∈ m.bodies := hBodies ▸ List.mem_singleton_self body
    simpa using ⟨body, (List.mem_filter.mp hMem).1, rfl⟩
  have hFields := map_filterMap_subset fieldSpec?_parameter m.parameters
  have hMaps := map_filterMap_subset mapSpec?_parameter m.parameters
  cases h with
  | noBody => exact List.nil_subset _
  | jsonObject hBodies | multipartForm hBodies =>
    simpa [parameterNames, wholes, fields, maps, parts] using hBody hBodies
  | jsonMap | formUrlEncoded =>
    simpa [parameterNames, wholes, fields, maps, parts] using
      List.append_subset.mpr ⟨hFields, hMaps⟩
  | multipartParts =>
    have hParts := map_filterMap_subset (@partSpec?_parameter types) m.parts
    have hFilter := List.map_subset (fun p : Parameter => p.name)
      (List.filter_subset_self _ : m.parts ⊆ m.parameters)
    simpa [parameterNames, wholes, fields, maps, parts] using List.Subset.trans hParts hFilter

theorem ofMethods_forall₂ {interface : String} {types : RuntimeTypes} {methods : List Method}
    {encodings : List BodyEncoding} (h : ofMethods interface types methods = .ok encodings) :
    List.Forall₂ (fun m e => ofMethod interface types m = .ok e) methods encodings := by
  induction methods generalizing encodings with
  | nil =>
    cases h
    exact .nil
  | cons m methods ih =>
    rw [ofMethods] at h
    cases hFirst : ofMethod interface types m with
    | error err =>
      rw [hFirst] at h
      cases h
    | ok first =>
      rw [hFirst] at h
      cases hRest : ofMethods interface types methods with
      | error err =>
        rw [hRest] at h
        cases h
      | ok rest =>
        rw [hRest] at h
        cases h
        exact .cons hFirst (ih hRest)

end BodyEncoding

/-- An interface whose names are identifiers and whose types can be written down. -/
structure Interface.Spelled (i : Interface) : Prop where
  name : IsName i.name
  methods : ∀ m ∈ i.methods, m.Spelled
  declared : ∀ m ∈ i.methods, m.declaredIn ∈ i.name :: i.supertraits

/-- A valid interface with an encoding for each method. -/
structure Plan.Sound (types : RuntimeTypes) (p : Plan) : Prop where
  valid : ∀ m ∈ p.interface.methods, Validation.fault? types m = none
  encoded : List.Forall₂ (BodyEncoding.EncodedAs types) p.interface.methods p.encodings

theorem Plan.ofInterface_sound {types : RuntimeTypes} {i : Interface} {p : Plan}
    (h : Plan.ofInterface types i = .ok p) : p.interface = i ∧ p.Sound types := by
  unfold Plan.ofInterface at h
  split at h
  · cases h
  · rename_i hNone
    cases hEncodings : BodyEncoding.ofInterface types i with
    | error err =>
      rw [hEncodings] at h
      cases h
    | ok encodings =>
      rw [hEncodings] at h
      cases h
      have hValid (m : Method) (hm : m ∈ i.methods) : Validation.fault? types m = none := by
        have := List.findSome?_eq_none_iff.mp hNone m hm
        simpa using this
      refine ⟨rfl, hValid, ?_⟩
      have hEach := BodyEncoding.ofMethods_forall₂ hEncodings
      rw [List.forall₂_iff_zip] at hEach ⊢
      refine ⟨hEach.1, fun {m e} hm => ?_⟩
      have hOne := Validation.fault?_eq_none_iff.mp (hValid m (List.of_mem_zip hm).1)
        .bodyCardinality (by decide)
      exact BodyEncoding.encodedAs_ofMethod hOne (hEach.2 hm)

namespace Interface

variable {i : Interface}

theorem isName_implName (h : IsName i.name) : IsName i.implName := by
  refine ⟨implName_isToken h.token, ?_⟩
  have hKeywords : ∀ k ∈ Source.keywords, ¬"Impl".toList <:+ k.toList := by decide
  rw [Source.isPlainName, Bool.not_eq_true', Bool.eq_false_iff]
  intro hKeyword
  refine hKeywords _ (List.contains_iff_mem.mp hKeyword) ?_
  rw [implName, String.toList_append]
  exact List.suffix_append _ _

theorem isName_factoryName (h : IsName i.name) (hRaw : Naming.isRaw i.name = false) :
    IsName i.factoryName := by
  refine ⟨(factoryName_isToken_iff h.token).mpr hRaw, ?_⟩
  have hKeywords : ∀ k ∈ Source.keywords, ¬"create_".toList <+: k.toList := by decide
  rw [Source.isPlainName, Bool.not_eq_true', Bool.eq_false_iff]
  intro hKeyword
  refine hKeywords _ (List.contains_iff_mem.mp hKeyword) ?_
  rw [factoryName, String.toList_append]
  exact List.prefix_append _ _

end Interface

namespace Emission

open Code (Item)

theorem forall_addToGroup {P : Code.Function → Prop} {trait : String} {f : Code.Function}
    {groups : List TraitGroup} (hGroups : ∀ g ∈ groups, ∀ f ∈ g.functions, P f) (hf : P f) :
    ∀ g ∈ addToGroup trait f groups, ∀ f ∈ g.functions, P f := by
  induction groups with
  | nil => simpa [addToGroup] using hf
  | cons g groups ih =>
    obtain ⟨hHead, hRest⟩ := List.forall_mem_cons.mp hGroups
    rw [addToGroup]
    split
    · refine List.forall_mem_cons.mpr ⟨?_, hRest⟩
      exact List.forall_mem_append.mpr ⟨hHead, by simpa using hf⟩
    · exact List.forall_mem_cons.mpr ⟨hHead, ih hRest⟩

theorem forall_traitGroups {P : Code.Function → Prop} {i : Interface}
    {encodings : List BodyEncoding}
    (h : ∀ m ∈ i.methods.zip encodings, P (MethodBody.function m.1 m.2)) :
    ∀ g ∈ traitGroups i encodings, ∀ f ∈ g.functions, P f := by
  have hFold (methods : List (Method × BodyEncoding)) (groups : List TraitGroup)
      (hMethods : ∀ m ∈ methods, P (MethodBody.function m.1 m.2))
      (hGroups : ∀ g ∈ groups, ∀ f ∈ g.functions, P f) :
      ∀ g ∈ methods.foldl (fun groups m =>
        addToGroup m.1.declaredIn (MethodBody.function m.1 m.2) groups) groups,
        ∀ f ∈ g.functions, P f := by
    induction methods generalizing groups with
    | nil => exact hGroups
    | cons m methods ih =>
      obtain ⟨hHead, hRest⟩ := List.forall_mem_cons.mp hMethods
      exact ih _ hRest (forall_addToGroup hGroups hHead)
  refine hFold _ _ h ?_
  intro g hg f hf
  obtain ⟨trait, _, rfl⟩ := List.mem_map.mp hg
  exact absurd hf List.not_mem_nil

theorem legible_plainFunction {v : Visibility} {name : String}
    {parameters : List (String × Code.CodeType)} {output : Code.CodeType} {takesSelf : Bool}
    {value : Expr} (hName : IsName name) (hParameters : ∀ p ∈ parameters, IsTyped p)
    (hOutput : output.Legible) (hValue : (Statement.result value).Legible) :
    (plainFunction v name parameters output takesSelf value).Legible :=
  ⟨hName, hParameters, hOutput, by simpa [plainFunction] using hValue,
    by simp [plainFunction]⟩

theorem legible_functions {types : RuntimeTypes} {p : Plan} (h : p.interface.Spelled)
    (hSound : p.Sound types) : ∀ g ∈ traitGroups p.interface p.encodings,
      ∀ f ∈ g.functions, f.Legible := by
  refine forall_traitGroups fun m hm => ?_
  have hEncoded := (List.forall₂_iff_zip.mp hSound.encoded).2 hm
  have hMethod := (List.of_mem_zip hm).1
  exact MethodBody.legible_function (h.methods _ hMethod) (hSound.valid _ hMethod)
    hEncoded.parameterNames_subset

theorem legible_items {types : RuntimeTypes} {p : Plan} (h : p.interface.Spelled)
    (hSound : p.Sound types) (hRaw : Naming.isRaw p.interface.name = false)
    (hPaths : ∀ path ∈ p.interface.supertraits, IsPath path) :
    ∀ item ∈ items p.interface p.encodings, item.Legible := by
  have hImpl := Interface.isName_implName h.name
  have hFactory := Interface.isName_factoryName h.name hRaw
  have hNew : IsName "new" := MethodBody.isName_of_decide (by decide)
  have hContext : IsName "context" := MethodBody.isName_of_decide (by decide)
  have hClient : IsName "ClientContext" := MethodBody.isName_of_decide (by decide)
  have hOwned : IsTyped ("context", .runtime "ClientContext") := ⟨hContext, .runtime hClient⟩
  have hBorrowed : IsTyped ("context", .runtimeReference "ClientContext") :=
    ⟨hContext, .runtimeReference hClient⟩
  simp only [items, List.cons_append, List.forall_mem_cons, List.forall_mem_append,
    List.forall_mem_map, List.not_mem_nil, false_imp_iff, implies_true, and_true]
  refine ⟨.struct hImpl (by simpa using hOwned), .inherent hImpl ?_, fun g hg => ?_, ?_⟩
  · have hBuilt : (Statement.result (.construct ["context"])).Legible :=
      .built (by simpa using hContext)
    have hField : (Expr.field (.var "self") "context").Legible := .field .self rfl hContext
    simp only [List.forall_mem_cons, List.not_mem_nil, false_imp_iff, implies_true, and_true]
    exact ⟨legible_plainFunction hNew (by simpa using hOwned) .selfType hBuilt,
      legible_plainFunction hContext (by simp) (.runtimeReference hClient)
        (.result (.borrow hField rfl) rfl)⟩
  · have hTraits := (Extraction.traitGroups_blocks p.encodings h.declared).1
    have hTrait : g.trait ∈ p.interface.name :: p.interface.supertraits :=
      hTraits ▸ List.mem_map_of_mem hg
    have hPath : IsPath g.trait := by
      rcases List.mem_cons.mp hTrait with hOwn | hSuper
      · exact hOwn ▸ h.name.isPath
      · exact hPaths _ hSuper
    exact .implementation hPath hImpl (legible_functions h hSound g hg)
  · have hClone : (Expr.method (.var "context") "clone" []).Legible :=
      MethodBody.legible_call (.var hContext) rfl (by decide) (by simp)
    have hCall : (Expr.call (.associated p.interface.implName "new")
        [.method (.var "context") "clone" []]).Legible :=
      .call (.associated hImpl hNew) rfl (by simpa using hClone)
    have hParameters : ∀ p ∈ [("context", Code.CodeType.runtimeReference "ClientContext")],
        IsTyped p := by simpa using hBorrowed
    -- The comment of the factory is no part of what makes it legible.
    have hFunction : (plainFunction p.interface.visibility p.interface.factoryName
        [("context", .runtimeReference "ClientContext")] (.named p.interface.implName) false
        (.call (.associated p.interface.implName "new")
          [.method (.var "context") "clone" []])).Legible :=
      legible_plainFunction hFactory hParameters (.named hImpl) (.result hCall rfl)
    exact .function ⟨hFunction.name, hFunction.parameters, hFunction.output, hFunction.body⟩

end Emission
end TraitClient
