import TraitClient.Proofs.LegibleCode
import TraitClient.Proofs.MethodRuns

/-!
# Generated methods are legible

But for fixed words and locals the function of a method names only what the method does.  It is
legible if the names of the method are identifiers and its types can be written down, and if the
method is valid, so that every placeholder stands for a parameter.
-/
namespace TraitClient

open Code (IsName IsPath IsSegment IsBlock IsTyped Expr Statement Word)

/-! ## Locals -/

theorem Locals.isName_of_mem_names {m : Method} {name : String} (hName : name ∈ (ofMethod m).names) :
    IsName name := by
  refine ⟨isToken_of_mem_names hName, ?_⟩
  rw [names_ofMethod] at hName
  obtain ⟨base, hBase, count, rfl⟩ := LocalNames.freshAll_underscored hName
  have hBases : ∀ base ∈ bases, ∀ k ∈ Source.keywords, ¬base.toList <+: k.toList := by decide
  rw [Source.isPlainName, Bool.not_eq_true', Bool.eq_false_iff]
  intro hKeyword
  refine hBases base hBase _ (List.contains_iff_mem.mp hKeyword) ?_
  rw [LocalNames.toList_underscored]
  exact List.prefix_append _ _

/-- A method whose names are identifiers and whose types can be written down. -/
structure Method.Spelled (m : Method) : Prop where
  name : IsName m.name
  parameters : ∀ p ∈ m.parameters, IsName p.name
  types : ∀ p ∈ m.parameters, p.type.Legible
  returnType : m.returnType.Legible

namespace MethodBody

variable {c : Context}

structure Context.Named (c : Context) : Prop where
  locals : ∀ n ∈ c.locals.names, IsName n
  parameters : ∀ p ∈ c.method.parameters, IsName p.name

theorem Context.named_ofMethod {m : Method} (h : m.Spelled) : (Context.ofMethod m).Named :=
  ⟨fun _ hn => Locals.isName_of_mem_names hn, h.parameters⟩

section

variable (h : c.Named)
include h

theorem Context.Named.client : IsName c.locals.client := h.locals _ (by simp [Locals.names])
theorem Context.Named.url : IsName c.locals.url := h.locals _ (by simp [Locals.names])
theorem Context.Named.request : IsName c.locals.request := h.locals _ (by simp [Locals.names])
theorem Context.Named.response : IsName c.locals.response := h.locals _ (by simp [Locals.names])
theorem Context.Named.value : IsName c.locals.value := h.locals _ (by simp [Locals.names])
theorem Context.Named.fields : IsName c.locals.fields := h.locals _ (by simp [Locals.names])
theorem Context.Named.form : IsName c.locals.form := h.locals _ (by simp [Locals.names])
theorem Context.Named.part : IsName c.locals.part := h.locals _ (by simp [Locals.names])

end

theorem isName_of_decide {name : String}
    (h : ((Word.ident name).isToken && Source.isPlainName name) = true) : IsName name :=
  have hBoth := Bool.and_eq_true_iff.mp h
  ⟨hBoth.1, hBoth.2⟩

theorem legible_call {e : Expr} {name : String} {arguments : List Expr} (h : e.Legible)
    (operand : e.isOperand = true)
    (hName : ((Word.ident name).isToken && Source.isPlainName name) = true)
    (hArguments : ∀ a ∈ arguments, a.Legible) : (Expr.method e name arguments).Legible :=
  .method h operand (isName_of_decide hName) hArguments

theorem legible_toText {e : Expr} (h : e.Legible) (operand : e.isOperand = true) :
    (toText e).Legible :=
  legible_call h operand (by decide) (by simp)

theorem legible_iterate {e : Expr} (h : e.Legible) (operand : e.isOperand = true) :
    (iterate e).Legible :=
  legible_call h operand (by decide) (by simp)

theorem legible_fresh {type : String}
    (hType : ((Word.ident type).isToken && Source.isPlainName type) = true) :
    (Expr.call (.runtime [type, "new"]) []).Legible := by
  have hNew : IsName "new" := isName_of_decide (by decide)
  refine .call (.runtime (by simp) ?_) rfl (by simp)
  simpa using ⟨isName_of_decide hType, hNew⟩

theorem legible_awaited {name : String} {e : Expr}
    (hName : ((Word.ident name).isToken && Source.isPlainName name) = true) (he : e.Legible) :
    (awaited name e).Legible := by
  have hRuntime : (Expr.runtime [name]).Legible :=
    .runtime (by simp) (by simpa using isName_of_decide hName)
  exact .propagate (.await (.call hRuntime rfl (by simpa using he)) rfl) rfl

/-- A legible statement that is no result. -/
structure IsStep (st : Statement) : Prop where
  legible : st.Legible
  running : st.isResult = false

theorem IsStep.forEach {bound : String} {source : Expr} {st : Statement} (hBound : IsName bound)
    (hSource : source.Legible) (h : IsStep st) : IsStep (.forEach bound source [st]) :=
  ⟨.forEach hBound hSource (by simpa using h.legible) (by simpa using h.running), rfl⟩

theorem IsStep.ifSome {bound : String} {source : Expr} {st : Statement} (hBound : IsName bound)
    (hSource : source.Legible) (h : IsStep st) : IsStep (.ifSome bound source [st]) :=
  ⟨.ifSome hBound hSource (by simpa using h.legible) (by simpa using h.running), rfl⟩

theorem isBlock_append {steps rest : List Statement} (hSteps : ∀ st ∈ steps, IsStep st)
    (hRest : IsBlock rest) (hNonempty : rest ≠ []) : IsBlock (steps ++ rest) := by
  refine ⟨List.forall_mem_append.mpr ⟨fun st hst => (hSteps st hst).legible, hRest.legible⟩, ?_⟩
  rw [List.dropLast_append_of_ne_nil hNonempty]
  exact List.forall_mem_append.mpr ⟨fun st hst => (hSteps st hst).running, hRest.running⟩

/-! ## Building the request -/

section

variable (h : c.Named)
include h

theorem isStep_extend {name : String} {arguments : List Expr}
    (hName : ((Word.ident name).isToken && Source.isPlainName name) = true)
    (hArguments : ∀ a ∈ arguments, a.Legible) : IsStep (extend c name arguments) :=
  ⟨.assign h.request (legible_call (.var h.request) rfl hName hArguments), rfl⟩

theorem isStep_staticHeaders : ∀ st ∈ staticHeaders c, IsStep st := by
  intro st hst
  obtain ⟨header, _, rfl⟩ := List.mem_map.mp hst
  refine isStep_extend h (by decide) ?_
  simp [Expr.Legible.string]

theorem isStep_eachValue {p : Parameter} (hp : IsName p.name) {apply : Expr → Statement}
    (hApply : ∀ e : Expr, e.Legible → e.isOperand = true → IsStep (apply e)) :
    IsStep (eachValue c p apply) := by
  have hParameter : (Expr.var p.name).Legible := .var hp
  have hElement := hApply (.var c.locals.value) (.var h.value) rfl
  unfold eachValue
  split
  · exact .forEach h.value (legible_iterate hParameter rfl) hElement
  · have hValues : IsName "values" := isName_of_decide (by decide)
    refine .forEach h.value ?_ hElement
    refine legible_call (legible_iterate hParameter rfl) rfl (by decide) ?_
    rintro a ha
    obtain rfl := List.mem_singleton.mp ha
    exact .closure hValues (legible_iterate (.var hValues) rfl) rfl
  · exact .ifSome h.value (.borrow hParameter rfl) hElement
  · exact hApply (.var p.name) hParameter rfl

theorem isStep_queryMap {p : Parameter} (hp : IsName p.name) : IsStep (queryMap c p) := by
  unfold queryMap
  split
  · refine .ifSome h.value (.borrow (.var hp) rfl) (isStep_extend h (by decide) ?_)
    simpa using Expr.Legible.var h.value
  · refine isStep_extend h (by decide) ?_
    simpa using Expr.Legible.borrow (.var hp) rfl

theorem isStep_queryPair (key : String) {e : Expr} (he : e.Legible) (operand : e.isOperand = true) :
    IsStep (queryPair c key e) := by
  refine isStep_extend h (by decide) ?_
  intro a ha
  obtain rfl := List.mem_singleton.mp ha
  exact .borrow (.singleton (.pair (.string key) (legible_toText he operand))) rfl

theorem isStep_query : ∀ st ∈ query c, IsStep st := by
  intro st hst
  obtain ⟨p, hp, hSome⟩ := List.mem_filterMap.mp hst
  have hName := h.parameters p hp
  split at hSome
  · rename_i key _
    obtain rfl := Option.some.inj hSome
    split
    · exact isStep_queryMap h hName
    · exact isStep_eachValue h hName fun e he operand => isStep_queryPair h key he operand
  · cases hSome

theorem isStep_headers : ∀ st ∈ headers c, IsStep st := by
  intro st hst
  obtain ⟨p, hp, hSome⟩ := List.mem_filterMap.mp hst
  split at hSome
  · rename_i key _
    obtain rfl := Option.some.inj hSome
    refine isStep_eachValue h (h.parameters p hp) fun e he operand => ?_
    refine isStep_extend h (by decide) ?_
    simpa using ⟨Expr.Legible.string key, legible_toText he operand⟩
  · cases hSome

/-! ## The body -/

theorem isStep_collect (collection : Collection) {name : String} {arguments : List Expr}
    (hName : ((Word.ident name).isToken && Source.isPlainName name) = true)
    (hArguments : ∀ a ∈ arguments, a.Legible) : IsStep (collect c collection name arguments) := by
  have hCall := legible_call (.var h.fields) rfl hName hArguments
  unfold collect
  split
  · exact ⟨.run (.propagate hCall rfl) rfl, rfl⟩
  · exact ⟨.run hCall rfl, rfl⟩

theorem isStep_insertField (collection : Collection) {f : FieldSpec} (hf : IsName f.parameter) :
    IsStep (insertField c collection f) := by
  unfold insertField
  split
  · refine .ifSome h.value (.borrow (.var hf) rfl) (isStep_collect h collection (by decide) ?_)
    simpa using ⟨Expr.Legible.string f.key, Expr.Legible.var h.value⟩
  · refine isStep_collect h collection (by decide) ?_
    simpa using ⟨Expr.Legible.string f.key, Expr.Legible.borrow (.var hf) rfl⟩

theorem isStep_extendByMap (collection : Collection) {m : MapSpec} (hm : IsName m.parameter) :
    IsStep (extendByMap c collection m) := by
  unfold extendByMap
  split
  · refine .ifSome h.value (.borrow (.var hm) rfl) (isStep_collect h collection (by decide) ?_)
    simpa using legible_iterate (.var h.value) rfl
  · refine isStep_collect h collection (by decide) ?_
    simpa using legible_iterate (.var hm) rfl

theorem isStep_collectFields {collection : Collection}
    (hType : ((Word.ident collection.type).isToken && Source.isPlainName collection.type) = true)
    {fields : List FieldSpec} {maps : List MapSpec} (hFields : ∀ f ∈ fields, IsName f.parameter)
    (hMaps : ∀ m ∈ maps, IsName m.parameter) :
    ∀ st ∈ collectFields c collection fields maps, IsStep st := by
  intro st hst
  rcases List.mem_cons.mp hst with rfl | hst
  · exact ⟨.letValue h.fields (legible_fresh hType), rfl⟩
  · rcases List.mem_append.mp hst with hst | hst
    · obtain ⟨f, hf, rfl⟩ := List.mem_map.mp hst
      exact isStep_insertField h collection (hFields f hf)
    · obtain ⟨m, hm, rfl⟩ := List.mem_map.mp hst
      exact isStep_extendByMap h collection (hMaps m hm)

theorem isStep_collected {collection : Collection}
    (hType : ((Word.ident collection.type).isToken && Source.isPlainName collection.type) = true)
    {name : String} (hName : ((Word.ident name).isToken && Source.isPlainName name) = true)
    {fields : List FieldSpec} {maps : List MapSpec} (hFields : ∀ f ∈ fields, IsName f.parameter)
    (hMaps : ∀ m ∈ maps, IsName m.parameter) :
    ∀ st ∈ collectFields c collection fields maps ++ [extend c name [.borrow (.var c.locals.fields)]],
      IsStep st := by
  intro st hst
  rcases List.mem_append.mp hst with hst | hst
  · exact isStep_collectFields h hType hFields hMaps st hst
  · obtain rfl := List.mem_singleton.mp hst
    refine isStep_extend h hName ?_
    simpa using Expr.Legible.borrow (.var h.fields) rfl

theorem isStep_extendForm {name : String} (key : String) {value : Expr}
    (hName : ((Word.ident name).isToken && Source.isPlainName name) = true)
    (hValue : value.Legible) : IsStep (extendForm c name key value) := by
  refine ⟨.assign h.form (legible_call (.var h.form) rfl hName ?_), rfl⟩
  simpa using ⟨Expr.Legible.string key, hValue⟩

theorem isStep_appendPart {s : PartSpec} (hs : IsName s.parameter) : IsStep (appendPart c s) := by
  have hParameter : (Expr.var s.parameter).Legible := .var hs
  unfold appendPart
  split
  · exact .forEach h.part hParameter (isStep_extendForm h s.key (by decide) (.var h.part))
  · refine .forEach h.part ?_ (isStep_extendForm h s.key (by decide) (.var h.part))
    exact legible_call (legible_call hParameter rfl (by decide) (by simp)) rfl (by decide) (by simp)
  · exact isStep_extendForm h s.key (by decide) hParameter
  · exact .ifSome h.value hParameter (isStep_extendForm h s.key (by decide) (.var h.value))
  · exact isStep_extendForm h s.key (by decide) (legible_toText hParameter rfl)
  · refine .ifSome h.value (.borrow hParameter rfl) (isStep_extendForm h s.key (by decide) ?_)
    exact legible_toText (.var h.value) rfl

theorem isStep_body {e : BodyEncoding} (hNames : ∀ n ∈ e.parameterNames, IsName n) :
    ∀ st ∈ body c e, IsStep st := by
  simp only [BodyEncoding.parameterNames, List.mem_append, or_imp, forall_and,
    List.forall_mem_map] at hNames
  obtain ⟨⟨⟨hWholes, hFields⟩, hMaps⟩, hParts⟩ := hNames
  intro st hst
  cases e with
  | noBody => exact absurd hst List.not_mem_nil
  | jsonObject name =>
    obtain rfl := List.mem_singleton.mp hst
    refine isStep_extend h (by decide) ?_
    simpa using Expr.Legible.borrow (.var (hWholes name List.mem_cons_self)) rfl
  | jsonMap => exact isStep_collected h (by decide) (by decide) hFields hMaps st hst
  | formUrlEncoded => exact isStep_collected h (by decide) (by decide) hFields hMaps st hst
  | multipartForm name =>
    obtain rfl := List.mem_singleton.mp hst
    refine isStep_extend h (by decide) ?_
    simpa using Expr.Legible.var (hWholes name List.mem_cons_self)
  | multipartParts parts =>
    rcases List.mem_append.mp hst with hst | hst
    · rcases List.mem_cons.mp hst with rfl | hst
      · exact ⟨.letValue h.form (legible_fresh (by decide)), rfl⟩
      · obtain ⟨s, hs, rfl⟩ := List.mem_map.mp hst
        exact isStep_appendPart h (hParts s hs)
    · obtain rfl := List.mem_singleton.mp hst
      refine isStep_extend h (by decide) ?_
      simpa using Expr.Legible.var h.form

theorem isStep_requestStatements {e : BodyEncoding} (hNames : ∀ n ∈ e.parameterNames, IsName n) :
    ∀ st ∈ requestStatements c e, IsStep st := by
  simp only [requestStatements, List.forall_mem_append]
  exact ⟨⟨⟨isStep_staticHeaders h, isStep_query h⟩, isStep_headers h⟩, isStep_body h hNames⟩

/-! ## The whole function -/

/-- Every placeholder of a valid method is a parameter, so that no other name gets in. -/
theorem legible_endpoint {types : RuntimeTypes} (hValid : Validation.fault? types c.method = none) :
    (endpoint c).Legible := by
  rw [endpoint]
  split
  · exact .string _
  · refine .borrow (.format ?_) rfl
    intro a ha
    obtain ⟨piece, hPiece, hSome⟩ := List.mem_filterMap.mp ha
    cases piece with
    | text s => cases hSome
    | placeholder name =>
      obtain ⟨p, hp, hFind, _⟩ :=
        exists_boundParameter hValid (Template.placeholder_mem_pieces_iff.mp hPiece)
      obtain rfl := Option.some.inj hSome
      rw [placeholderParameter, hFind]
      exact .var (h.parameters p hp)

theorem isBlock_respond : IsBlock (respond c) := by
  have hSend : (awaited "send" (.var c.locals.request)).Legible :=
    legible_awaited (by decide) (.var h.request)
  have hOk (e : Expr) (he : e.Legible) : (Statement.result (.call (.var "Ok") [e])).Legible :=
    .result (.call (.var (isName_of_decide (by decide))) rfl (by simpa using he)) rfl
  rw [respond_eq]
  split
  · exact ⟨by simpa using ⟨Statement.Legible.run hSend rfl, hOk .unit .unit⟩,
      by simp [Statement.isResult]⟩
  · have hRead : (awaited (if c.method.modifiers.textResponse then "read_text" else "read_json")
        (.var c.locals.response)).Legible := by
      refine legible_awaited ?_ (.var h.response)
      split <;> decide
    exact ⟨by simpa using ⟨Statement.Legible.letValue h.response hSend, hOk _ hRead⟩,
      by simp [Statement.isResult]⟩

theorem isBlock_statements {types : RuntimeTypes} {e : BodyEncoding}
    (hValid : Validation.fault? types c.method = none) (hNames : ∀ n ∈ e.parameterNames, IsName n) :
    IsBlock (statements c e) := by
  have hEndpoint := legible_endpoint h hValid
  have hSelf : (Expr.field (.var "self") "context").Legible :=
    .field .self rfl (isName_of_decide (by decide))
  have hMethod : (Expr.runtime ["reqwest", "Method", c.method.verb.text]).Legible := by
    refine .runtime (by simp) ?_
    have hVerb : IsName c.method.verb.text := by
      cases c.method.verb <;> exact isName_of_decide (by decide)
    simpa using ⟨isName_of_decide (by decide), isName_of_decide (by decide), hVerb⟩
  have hOpening : IsStep (.letPair c.locals.client c.locals.url (.propagate
      (.method (.field (.var "self") "context") "endpoint" [endpoint c]))) :=
    ⟨.letPair h.client h.url
      (.propagate (legible_call hSelf rfl (by decide) (by simpa using hEndpoint)) rfl), rfl⟩
  have hRequest : IsStep (.letValue (!(requestStatements c e).isEmpty) c.locals.request
      (.method (.var c.locals.client) "request"
        [.runtime ["reqwest", "Method", c.method.verb.text], .var c.locals.url])) :=
    ⟨.letValue h.request (legible_call (.var h.client) rfl (by decide)
      (by simpa using ⟨hMethod, Expr.Legible.var h.url⟩)), rfl⟩
  have hSteps := List.forall_mem_cons.mpr
    ⟨hOpening, List.forall_mem_cons.mpr ⟨hRequest, isStep_requestStatements h hNames⟩⟩
  exact isBlock_append hSteps (isBlock_respond h) (respond_ne_nil c)

end

theorem legible_function {types : RuntimeTypes} {m : Method} {e : BodyEncoding} (h : m.Spelled)
    (hValid : Validation.fault? types m = none)
    (hEncoded : ∀ n ∈ e.parameterNames, n ∈ m.parameters.map (·.name)) :
    (function m e).Legible where
  name := h.name
  parameters := by
    intro p hp
    obtain ⟨parameter, hParameter, rfl⟩ := List.mem_map.mp hp
    exact ⟨h.parameters parameter hParameter, .model (h.types parameter hParameter)⟩
  output := .model h.returnType
  body := by
    refine isBlock_statements (Context.named_ofMethod h) hValid fun n hn => ?_
    obtain ⟨p, hp, rfl⟩ := List.mem_map.mp (hEncoded n hn)
    exact h.parameters p hp

end MethodBody

end TraitClient
