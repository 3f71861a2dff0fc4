import TraitClient.Proofs.EndpointText
import TraitClient.Proofs.LocalNames
import TraitClient.Proofs.ObjectStatements
import TraitClient.Proofs.BodyContents

/-!
# The calls that build a request

What is called on a request is said by the method and its arguments alone: static headers, query
pairs, headers and the body, each in the order in which the method has them.  The statements of the
generated body make these calls.
-/
namespace TraitClient.MethodBody

open Code (Data Value Call Runtime Run Scope Slot Adds AddsFor Expr Statement eval evalAll exec
  execAll attempt attempts identifier canFail mutatingMethods builderMethods method?)

variable {α : Type}

/-! ## Arguments -/

/-- What the arguments hold; an absent one holds nothing. -/
abbrev Arguments (α : Type) := Parameter → Option (Data α)

/-- An argument of the type of its parameter. -/
structure Fits (p : Parameter) (argument : Option (Data α)) : Prop where
  present : p.type.nullable = false → argument ≠ none
  list : p.type.isList = true ∨ p.type.isSlice = true →
    ∀ d, argument = some d → ∃ elements, d = .list elements
  map : p.type.isMap = true → ∀ d, argument = some d → ∃ entries, d = .map entries

def fits (p : Parameter) : Option (Data α) → Bool
  | none => p.type.nullable
  | some (.atom _) => !(p.type.isList || p.type.isSlice) && !p.type.isMap
  | some (.list _) => !p.type.isMap
  | some (.map _) => !(p.type.isList || p.type.isSlice)

theorem fits_iff {p : Parameter} {argument : Option (Data α)} :
    fits p argument = true ↔ Fits p argument := by
  constructor
  · intro h
    rcases argument with - | (a | ds | es)
    · exact ⟨fun hRequired => absurd h (by simp [fits, hRequired]), by simp, by simp⟩
    · simp only [fits, Bool.and_eq_true, Bool.not_eq_true', Bool.or_eq_false_iff] at h
      exact ⟨by simp, by simp [h.1.1, h.1.2], by simp [h.2]⟩
    · simp only [fits, Bool.not_eq_true'] at h
      exact ⟨by simp, by simp, by simp [h]⟩
    · simp only [fits, Bool.not_eq_true', Bool.or_eq_false_iff] at h
      exact ⟨by simp, by simp [h.1, h.2], by simp⟩
  · rintro ⟨hPresent, hList, hMap⟩
    rcases argument with - | (a | ds | es)
    · simpa [fits] using hPresent
    · simpa [fits] using And.intro hList hMap
    · simpa [fits] using hMap
    · simpa [fits] using hList

instance (p : Parameter) (argument : Option (Data α)) : Decidable (Fits p argument) :=
  decidable_of_iff _ fits_iff

def argumentValue (p : Parameter) : Option (Data α) → Value α
  | none => .absent
  | some d => if p.type.nullable then .present d else .data d

def argumentScope (args : Arguments α) (ps : List Parameter) : Scope α :=
  (ps.filter (·.binding ≠ .unbound)).map fun p =>
    ⟨identifier p.name, false, argumentValue p (args p)⟩

def elements : Data α → List (Data α)
  | .list ds => ds
  | _ => []

def entries : Data α → List (Value α)
  | .map es => es.map fun e => .pair (.data e.1) (.data e.2)
  | _ => []

/-! ## Calls -/

section

variable (rt : Runtime α) (args : Arguments α)

def keyedValues (p : Parameter) : List (Data α) :=
  if p.type.isList || p.type.isSlice then (args p).toList.flatMap elements else (args p).toList

def queryPairCall (key : String) (d : Data α) : Call α :=
  ("query", [.list [.pair (.text key) (.text (rt.text d))]])

def headerCall (key : String) (d : Data α) : Call α :=
  ("header", [.text key, .text (rt.text d)])

def staticHeaderCalls (m : Method) : List (Call α) :=
  m.modifiers.headers.map fun h => ("header", [.text h.name, .text h.value])

def queryCalls (p : Parameter) : List (Call α) :=
  match p.binding with
  | .query key =>
    if p.type.isMap then (args p).toList.map fun d => ("query", [.data d])
    else (keyedValues args p).map (queryPairCall rt key)
  | _ => []

def headerCalls (p : Parameter) : List (Call α) :=
  match p.binding with
  | .header key => (keyedValues args p).map (headerCall rt key)
  | _ => []

def fieldCalls (p : Parameter) : List (Call α) :=
  match p.binding with
  | .field key => (args p).toList.map fun d => ("insert", [.text key, .data d])
  | _ => []

def fieldMapCalls (p : Parameter) : List (Call α) :=
  match p.binding with
  | .fieldMap => (args p).toList.map fun d => ("extend", [.list (entries d)])
  | _ => []

/-- All fields, then all maps. -/
def collectedCalls (m : Method) : List (Call α) :=
  m.parameters.flatMap (fieldCalls args) ++ m.parameters.flatMap (fieldMapCalls args)

def partCalls (types : RuntimeTypes) (p : Parameter) : List (Call α) :=
  match p.binding, BodyEncoding.partKind? types p.type with
  | .part key, some .list =>
    ((args p).toList.flatMap elements).map fun d => ("part", [.text key, .data d])
  | .part key, some .raw => (args p).toList.map fun d => ("part", [.text key, .data d])
  | .part key, some .scalar =>
    (args p).toList.map fun d => ("text", [.text key, .text (rt.text d)])
  | _, _ => []

def bodyCalls (types : RuntimeTypes) (m : Method) : BodyEncoding → List (Call α)
  | .noBody => []
  | .jsonObject _ => m.bodies.map fun p => ("json", [argumentValue p (args p)])
  | .jsonMap _ _ => [("json", [.object ("JsonFields::new", []) (collectedCalls args m)])]
  | .formUrlEncoded _ _ => [("form", [.object ("FormFields::new", []) (collectedCalls args m)])]
  | .multipartForm _ => m.bodies.map fun p => ("multipart", [argumentValue p (args p)])
  | .multipartParts _ =>
    [("multipart", [.object ("Form::new", []) (m.parts.flatMap (partCalls rt args types))])]

def requestCalls (types : RuntimeTypes) (m : Method) (e : BodyEncoding) : List (Call α) :=
  staticHeaderCalls m ++ m.parameters.flatMap (queryCalls rt args) ++
    m.parameters.flatMap (headerCalls rt args) ++ bodyCalls rt args types m e

/-- What can fail before the request is sent: inserting into JSON fields. -/
def bodyAttempts (m : Method) : BodyEncoding → Run α PUnit
  | .jsonMap _ _ => attempts rt "JsonFields::new" (collectedCalls args m)
  | _ => pure ⟨⟩

/-- A scope in which the arguments of a method are read by their names. -/
def Reads (m : Method) (scope : Scope α) : Prop :=
  ∀ p ∈ m.parameters, p.binding ≠ .unbound →
    scope.lookup? p.name = some (argumentValue p (args p))

end

variable {rt : Runtime α} {args : Arguments α} {c : Context} {p : Parameter}

theorem argumentValue_of_nullable (h : p.type.nullable = true) (argument : Option (Data α)) :
    argumentValue p argument = argument.elim .absent .present := by
  cases argument with
  | none => rfl
  | some d => rw [argumentValue, if_pos h]; rfl

theorem Fits.exists_data {argument : Option (Data α)} (hFits : Fits p argument)
    (h : p.type.nullable = false) : ∃ d, argument = some d ∧ argumentValue p argument = .data d := by
  cases argument with
  | none => exact absurd rfl (hFits.present h)
  | some d => exact ⟨d, rfl, by rw [argumentValue, if_neg (by simp [h])]⟩

/-! ## One statement for each value -/

section

variable {s : Slot α} {bound : String} {call : Data α → Call α}

/-- The two forms of a statement that is left out where its argument is absent. -/
theorem adds_present (statement : Expr → Statement) {source source' : Expr}
    (hFits : Fits p (args p)) (hBound : bound ≠ s.name)
    (hPlain : identifier bound = bound)
    (hSource : ∀ before, eval rt (s.scope before) source = pure (argumentValue p (args p)))
    (hSource' : ∀ before, eval rt (s.scope before) source' = pure (argumentValue p (args p)))
    (h : ∀ d, args p = some d → AddsFor rt s statement d (call d)) :
    Adds rt s
      [if p.type.nullable then .ifSome bound source [statement (.var bound)] else statement source']
      ((args p).toList.map call) := by
  cases hNullable : p.type.nullable with
  | true =>
    refine AddsFor.ifSome statement h hBound hPlain fun before => ?_
    rw [hSource before, argumentValue_of_nullable hNullable]
  | false =>
    obtain ⟨d, hData, hValue⟩ := hFits.exists_data hNullable
    rw [hData]
    refine (h d hData).adds fun before => ?_
    rw [hSource' before, hValue]

theorem apply_values (scope : Scope α) (ds : List (Data α)) :
    Code.apply rt scope (.closure "values" (iterate (.var "values"))) (.data (.list ds)) =
      pure (.list (ds.map .data)) := by
  have hVar : eval rt (scope.bind "values" false (.data (.list ds))) (.var "values") =
      pure (.data (.list ds)) := by
    simp [eval, Scope.lookup?, Scope.bind]
  rw [Code.apply, iterate, Code.eval_iter hVar]
  rfl

theorem adds_eachElement {apply : Expr → Statement} (hFits : Fits p (args p))
    (hList : (p.type.isList || p.type.isSlice) = true) (hBound : c.locals.value ≠ s.name)
    (hPlain : identifier c.locals.value = c.locals.value)
    (hRead : ∀ before, eval rt (s.scope before) (.var p.name) = pure (argumentValue p (args p)))
    (h : ∀ d, AddsFor rt s apply d (call d)) :
    Adds rt s [eachValue c p apply] (((args p).toList.flatMap elements).map call) := by
  have hElements := hFits.list (by simpa using hList)
  cases hNullable : p.type.nullable with
  | false =>
    obtain ⟨d, hData, hValue⟩ := hFits.exists_data hNullable
    obtain ⟨ds, rfl⟩ := hElements d hData
    have hStatement : eachValue c p apply =
        .forEach c.locals.value (iterate (.var p.name)) [apply (.var c.locals.value)] := by
      rw [eachValue, hList, hNullable]
    rw [hStatement, hData, Option.toList_some, List.flatMap_singleton]
    refine AddsFor.forEach apply (.list (ds.map .data)) (fun d _ => h d) hBound hPlain
      (fun before => ?_) rfl
    rw [iterate, Code.eval_iter (hRead before), hValue]
    rfl
  | true =>
    have hStatement : eachValue c p apply =
        .forEach c.locals.value
          (.method (iterate (.var p.name)) "flat_map"
            [.closure "values" (iterate (.var "values"))])
          [apply (.var c.locals.value)] := by
      rw [eachValue, hList, hNullable]
    rw [hStatement]
    refine AddsFor.forEach apply (.list (((args p).toList.flatMap elements).map .data))
      (fun d _ => h d) hBound hPlain (fun before => ?_) rfl
    have hIter := Code.eval_iter (hRead before)
    rw [argumentValue_of_nullable hNullable] at hIter
    rw [eval, iterate, hIter]
    cases hArgument : args p with
    | none => rfl
    | some d =>
      obtain ⟨ds, rfl⟩ := hElements d hArgument
      simp only [Option.elim_some, method?, Code.iterator?, Value.items?, Option.map_some,
        Run.ofOption_some, Run.pure_bind, List.mapM_cons, List.mapM_nil, apply_values]
      change (pure (.list [ds.map .data].flatten) : Run α (Value α)) = _
      rw [List.flatten_singleton, Option.toList_some, List.flatMap_singleton]
      rfl

theorem adds_eachValue {apply : Expr → Statement} (hFits : Fits p (args p))
    (hBound : c.locals.value ≠ s.name) (hPlain : identifier c.locals.value = c.locals.value)
    (hRead : ∀ before, eval rt (s.scope before) (.var p.name) = pure (argumentValue p (args p)))
    (h : ∀ d, AddsFor rt s apply d (call d)) :
    Adds rt s [eachValue c p apply] ((keyedValues args p).map call) := by
  cases hList : p.type.isList || p.type.isSlice with
  | false =>
    have hStatement : eachValue c p apply =
        if p.type.nullable then
          .ifSome c.locals.value (.borrow (.var p.name))
            [apply (.var c.locals.value)]
        else apply (.var p.name) := by
      rw [eachValue, hList]
      cases p.type.nullable <;> rfl
    have hValues : keyedValues args p = (args p).toList := by
      rw [keyedValues, hList]
      rfl
    rw [hStatement, hValues]
    refine adds_present apply hFits hBound hPlain (fun before => ?_) hRead fun d _ => h d
    rw [eval, hRead before]
  | true =>
    have hValues : keyedValues args p = (args p).toList.flatMap elements := by
      rw [keyedValues, hList]
      rfl
    rw [hValues]
    exact adds_eachElement hFits hList hBound hPlain hRead h

end

/-! ## The request -/

def requestSlot (c : Context) (hPlain : c.locals.Plain) (isMut : Bool)
    (arguments : List (Value α)) (below : Scope α) : Slot α where
  name := c.locals.request
  isMut
  origin := ("request", arguments)
  below
  plain := hPlain.request

/-- Arguments that fit, in a scope that they are read in, under no local of the body. -/
structure Supplied (args : Arguments α) (c : Context) (below : Scope α) : Prop where
  fits : ∀ p ∈ c.method.parameters, Fits p (args p)
  reads : Reads args c.method below
  plain : c.locals.Plain
  apart : c.locals.Apart
  unshadowed : ∀ p ∈ c.method.parameters, identifier p.name ∉ c.locals.lasting

variable {arguments : List (Value α)} {below : Scope α} {hPlain : c.locals.Plain}

theorem Reads.eval_var {m : Method} {scope : Scope α} (h : Reads args m scope)
    (hp : p ∈ m.parameters) (hBound : p.binding ≠ .unbound) :
    eval rt scope (.var p.name) = pure (argumentValue p (args p)) := by
  rw [eval, h p hp hBound]
  rfl

theorem Reads.bind {m : Method} {scope : Scope α} (h : Reads args m scope) {l : Code.Local α}
    (hApart : ∀ p ∈ m.parameters, identifier p.name ≠ l.name) : Reads args m (l :: scope) := by
  intro p hp hBound
  have hHead : (l.name == identifier p.name) = false :=
    beq_eq_false_iff_ne.mpr (hApart p hp).symm
  rw [← h p hp hBound, Scope.lookup?, Scope.lookup?, List.find?_cons, hHead]

theorem Supplied.reads_request (h : Supplied args c below) (isMut : Bool)
    (before : List (Call α)) :
    Reads args c.method ((requestSlot c h.plain isMut arguments below).scope before) :=
  h.reads.bind fun p hp hEq => h.unshadowed p hp (by simp [hEq, requestSlot, Locals.lasting])

theorem Supplied.eval_request (h : Supplied args c below) (rt : Runtime α)
    (arguments : List (Value α)) (hp : p ∈ c.method.parameters)
    (hBound : p.binding ≠ .unbound) (before : List (Call α)) :
    eval rt ((requestSlot c h.plain true arguments below).scope before) (.var p.name) =
      pure (argumentValue p (args p)) :=
  (h.reads_request true before).eval_var hp hBound

theorem mem_requestMethods {isMut : Bool} {name : String} (h : name ∈ builderMethods "request") :
    name ∈ builderMethods (requestSlot c hPlain isMut arguments below).origin.1 := h

theorem eval_toText {scope : Scope α} {e : Expr} {d : Data α}
    (hEval : eval rt scope e = pure (.data d)) :
    eval rt scope (toText e) = pure (.text (rt.text d)) := by
  rw [toText, Code.eval_method (by decide), hEval]
  rfl

theorem adds_staticHeaders :
    Adds rt (requestSlot c hPlain true arguments below) (staticHeaders c)
      (staticHeaderCalls c.method) := by
  rw [staticHeaders, staticHeaderCalls]
  induction c.method.modifiers.headers with
  | nil => exact Adds.nil
  | cons h headers ih =>
    have hHead : Adds rt (requestSlot c hPlain true arguments below)
        [extend c "header" [.string h.name, .string h.value]]
        [("header", [.text h.name, .text h.value])] :=
      Adds.assign rfl (mem_requestMethods (by decide)) fun before => rfl
    exact hHead.append ih

theorem addsFor_queryPair (key : String) (d : Data α) :
    AddsFor rt (requestSlot c hPlain true arguments below) (queryPair c key) d
      (queryPairCall rt key d) := by
  refine AddsFor.assign rfl (mem_requestMethods (by decide)) fun scope e hEval => ?_
  rw [evalAll, eval, eval, eval, eval, eval_toText hEval]
  rfl

theorem addsFor_header (key : String) (d : Data α) :
    AddsFor rt (requestSlot c hPlain true arguments below)
      (fun value => extend c "header" [.string key, toText value]) d
      (headerCall rt key d) := by
  refine AddsFor.assign rfl (mem_requestMethods (by decide)) fun scope e hEval => ?_
  rw [evalAll, evalAll, eval, eval_toText hEval]
  rfl

theorem Supplied.adds_queryMap (h : Supplied args c below) (hp : p ∈ c.method.parameters)
    (hBound : p.binding ≠ .unbound) :
    Adds rt (requestSlot c h.plain true arguments below) [queryMap c p]
      ((args p).toList.map fun d => ("query", [.data d])) := by
  have hStatement : queryMap c p =
      if p.type.nullable then
        .ifSome c.locals.value (.borrow (.var p.name)) [extend c "query" [.var c.locals.value]]
      else extend c "query" [.borrow (.var p.name)] := rfl
  have hBorrow (before : List (Call α)) :
      eval rt ((requestSlot c h.plain true arguments below).scope before) (.borrow (.var p.name)) =
        pure (argumentValue p (args p)) := by
    rw [eval, h.eval_request rt arguments hp hBound before]
  rw [hStatement]
  refine adds_present (fun e => extend c "query" [e]) (h.fits p hp) h.apart.value_request
    h.plain.value hBorrow hBorrow fun d _ =>
      AddsFor.assign rfl (mem_requestMethods (by decide)) fun scope e hEval => ?_
  rw [evalAll, hEval]
  rfl

theorem Supplied.adds_query (h : Supplied args c below) :
    Adds rt (requestSlot c h.plain true arguments below) (query c)
      (c.method.parameters.flatMap (queryCalls rt args)) := by
  refine Adds.filterMap fun p hp => ?_
  cases hBinding : p.binding with
  | query key =>
    have hVar := h.eval_request rt arguments hp (by simp [hBinding])
    simp only [queryCalls, hBinding, Option.toList_some]
    cases hMap : p.type.isMap with
    | false =>
      exact adds_eachValue (h.fits p hp) h.apart.value_request h.plain.value hVar
        fun d => addsFor_queryPair key d
    | true => exact h.adds_queryMap hp (by simp [hBinding])
  | _ =>
    simp only [queryCalls, hBinding]
    exact Adds.nil

theorem Supplied.adds_headers (h : Supplied args c below) :
    Adds rt (requestSlot c h.plain true arguments below) (headers c)
      (c.method.parameters.flatMap (headerCalls rt args)) := by
  refine Adds.filterMap fun p hp => ?_
  cases hBinding : p.binding with
  | header key =>
    have hVar := h.eval_request rt arguments hp (by simp [hBinding])
    simp only [headerCalls, hBinding, Option.toList_some]
    exact adds_eachValue (h.fits p hp) h.apart.value_request h.plain.value hVar
      fun d => addsFor_header key d
  | _ =>
    simp only [headerCalls, hBinding]
    exact Adds.nil

/-! ## Collections of fields -/

def collectionSlot (c : Context) (hPlain : c.locals.Plain) (collection : Collection)
    (isMut : Bool) (below : Scope α) : Slot α where
  name := c.locals.fields
  isMut
  origin := (collection.type ++ "::new", [])
  below
  plain := hPlain.fields

structure Collection.Known (collection : Collection) : Prop where
  canFail : Code.canFail (collection.type ++ "::new") = collection.canFail
  methods : mutatingMethods (collection.type ++ "::new") = ["insert", "extend"]

theorem jsonFields_known : jsonFields.Known := ⟨by decide, by decide⟩

theorem formFields_known : formFields.Known := ⟨by decide, by decide⟩

variable {collection : Collection}

theorem Supplied.eval_collection (h : Supplied args c below) (rt : Runtime α)
    (collection : Collection) (hp : p ∈ c.method.parameters) (hBound : p.binding ≠ .unbound)
    (before : List (Call α)) :
    eval rt ((collectionSlot c h.plain collection true below).scope before) (.var p.name) =
      pure (argumentValue p (args p)) := by
  have hReads : Reads args c.method ((collectionSlot c h.plain collection true below).scope before) :=
    h.reads.bind fun q hq hEq =>
      h.unshadowed q hq (by simp [hEq, collectionSlot, Locals.lasting])
  exact hReads.eval_var hp hBound

theorem addsFor_collect (hKnown : collection.Known) {name : String}
    (hName : name ∈ ["insert", "extend"]) {arguments : Expr → List Expr} {vs : List (Value α)}
    {d : Data α} (hArguments : ∀ scope e, eval rt scope e = pure (.data d) →
      evalAll rt scope (arguments e) = pure vs) :
    AddsFor rt (collectionSlot c hPlain collection true below)
      (fun e => collect c collection name (arguments e)) d (name, vs) := by
  have hMethod : name ∈ mutatingMethods (collectionSlot c hPlain collection true below).origin.1 :=
    hKnown.methods.symm ▸ hName
  have hRun := AddsFor.run rfl hMethod hArguments
  simp only [collectionSlot, hKnown.canFail] at hRun
  exact hRun

theorem Supplied.adds_insertField (h : Supplied args c below) (hKnown : collection.Known)
    (hp : p ∈ c.method.parameters) {key : String} (hBinding : p.binding = .field key) :
    Adds rt (collectionSlot c h.plain collection true below)
      [insertField c collection ⟨key, p.name, p.type.nullable⟩]
      (fieldCalls args p) := by
  have hVar := h.eval_collection rt collection hp (by simp [hBinding])
  have hBorrow (before : List (Call α)) :
      eval rt ((collectionSlot c h.plain collection true below).scope before) (.borrow (.var p.name)) =
        pure (argumentValue p (args p)) := by
    rw [eval, hVar before]
  simp only [fieldCalls, hBinding]
  refine adds_present (fun e => collect c collection "insert" [.string key, e])
    (h.fits p hp) h.apart.value_fields h.plain.value
    hBorrow hBorrow
    fun d _ => addsFor_collect hKnown (by decide) fun scope e hEval => ?_
  rw [evalAll, evalAll, hEval]
  rfl

theorem Supplied.adds_extendByMap (h : Supplied args c below) (hKnown : collection.Known)
    (hp : p ∈ c.method.parameters) (hBinding : p.binding = .fieldMap) (hMap : p.type.isMap = true) :
    Adds rt (collectionSlot c h.plain collection true below)
      [extendByMap c collection ⟨p.name, p.type.nullable⟩]
      (fieldMapCalls args p) := by
  have hVar := h.eval_collection rt collection hp (by simp [hBinding])
  have hBorrow (before : List (Call α)) :
      eval rt ((collectionSlot c h.plain collection true below).scope before) (.borrow (.var p.name)) =
        pure (argumentValue p (args p)) := by
    rw [eval, hVar before]
  simp only [fieldMapCalls, hBinding]
  refine adds_present (fun e => collect c collection "extend" [iterate e])
    (h.fits p hp) h.apart.value_fields h.plain.value
    hBorrow hVar
    fun d hData => addsFor_collect hKnown (by decide) fun scope e hEval => ?_
  obtain ⟨es, rfl⟩ := (h.fits p hp).map hMap d hData
  rw [evalAll, iterate, Code.eval_iter hEval]
  rfl

theorem Supplied.adds_collected (h : Supplied args c below) (hKnown : collection.Known)
    (hMaps : Validation.FieldMapsAreMaps c.method) :
    Adds rt (collectionSlot c h.plain collection true below)
      ((c.method.parameters.filterMap BodyEncoding.fieldSpec?).map (insertField c collection) ++
        (c.method.parameters.filterMap BodyEncoding.mapSpec?).map (extendByMap c collection))
      (collectedCalls args c.method) := by
  rw [List.map_filterMap, List.map_filterMap]
  refine (Adds.filterMap fun p hp => ?_).append (Adds.filterMap fun p hp => ?_)
  · cases hBinding : p.binding with
    | field key =>
      simp only [BodyEncoding.fieldSpec?, hBinding]
      exact h.adds_insertField hKnown hp hBinding
    | _ =>
      simp only [BodyEncoding.fieldSpec?, fieldCalls, hBinding]
      exact Adds.nil
  · cases hBinding : p.binding with
    | fieldMap =>
      simp only [BodyEncoding.mapSpec?, hBinding]
      exact h.adds_extendByMap hKnown hp hBinding (hMaps p hp hBinding)
    | _ =>
      simp only [BodyEncoding.mapSpec?, fieldMapCalls, hBinding]
      exact Adds.nil

/-! ## Multipart forms -/

def formSlot (c : Context) (hPlain : c.locals.Plain) (below : Scope α) : Slot α where
  name := c.locals.form
  isMut := true
  origin := ("Form::new", [])
  below
  plain := hPlain.form

theorem Supplied.eval_form (h : Supplied args c below) (rt : Runtime α) (hp : p ∈ c.method.parameters)
    (hBound : p.binding ≠ .unbound) (before : List (Call α)) :
    eval rt ((formSlot c h.plain below).scope before) (.var p.name) = pure (argumentValue p (args p)) := by
  have hReads : Reads args c.method ((formSlot c h.plain below).scope before) :=
    h.reads.bind fun q hq hEq => h.unshadowed q hq (by simp [hEq, formSlot, Locals.lasting])
  exact hReads.eval_var hp hBound

theorem mem_formMethods {name : String} (h : name ∈ builderMethods "Form::new") :
    name ∈ builderMethods (formSlot c hPlain below).origin.1 := h

theorem addsFor_part (key : String) (d : Data α) :
    AddsFor rt (formSlot c hPlain below) (extendForm c "part" key) d
      ("part", [.text key, .data d]) := by
  refine AddsFor.assign rfl (mem_formMethods (by decide)) fun scope e hEval => ?_
  rw [evalAll, evalAll, hEval]
  rfl

theorem addsFor_text (key : String) (d : Data α) :
    AddsFor rt (formSlot c hPlain below) (fun e => extendForm c "text" key (toText e)) d
      ("text", [.text key, .text (rt.text d)]) := by
  refine AddsFor.assign rfl (mem_formMethods (by decide)) fun scope e hEval => ?_
  rw [evalAll, evalAll, eval, eval_toText hEval]
  rfl

theorem isList_of_partKind? {types : RuntimeTypes} {t : TypeRef}
    (h : BodyEncoding.partKind? types t = some .list) : t.isList = true := by
  by_contra hNot
  rw [BodyEncoding.partKind?, TypeRef.element?, if_neg hNot] at h
  simp only [Bool.and_false, Bool.false_eq_true, if_false] at h
  split at h
  · cases h
  · split at h <;> cases h

theorem Supplied.adds_eachPart (h : Supplied args c below) (hp : p ∈ c.method.parameters)
    (hBound : p.binding ≠ .unbound) (hList : p.type.isList = true) (key : String) :
    Adds rt (formSlot c h.plain below) [appendPart c ⟨key, p.name, .list, p.type.nullable⟩]
      (((args p).toList.flatMap elements).map fun d => ("part", [.text key, .data d])) := by
  have hVar := h.eval_form rt hp hBound
  have hElements := (h.fits p hp).list (.inl hList)
  cases hNullable : p.type.nullable with
  | false =>
    obtain ⟨d, hData, hValue⟩ := (h.fits p hp).exists_data hNullable
    obtain ⟨ds, rfl⟩ := hElements d hData
    have hStatement : appendPart c ⟨key, p.name, .list, false⟩ =
        .forEach c.locals.part (.var p.name)
          [extendForm c "part" key (.var c.locals.part)] := rfl
    have hItems : (some (Data.list ds)).toList.flatMap elements = ds :=
      List.flatMap_singleton elements (.list ds)
    rw [hStatement, hData, hItems]
    refine AddsFor.forEach (extendForm c "part" key) (.data (.list ds))
      (fun d _ => addsFor_part key d) h.apart.part_form h.plain.part (fun before => ?_) rfl
    rw [hVar before, hValue]
  | true =>
    have hStatement : appendPart c ⟨key, p.name, .list, true⟩ =
        .forEach c.locals.part
          (.method (.method (.var p.name) "into_iter" []) "flatten" [])
          [extendForm c "part" key (.var c.locals.part)] := rfl
    rw [hStatement]
    refine AddsFor.forEach (extendForm c "part" key)
      (.list (((args p).toList.flatMap elements).map .data)) (fun d _ => addsFor_part key d)
      h.apart.part_form h.plain.part (fun before => ?_) rfl
    rw [Code.eval_method (by decide), Code.eval_method (by decide), hVar before,
      argumentValue_of_nullable hNullable]
    cases hArgument : args p with
    | none => rfl
    | some d =>
      obtain ⟨ds, rfl⟩ := hElements d hArgument
      change (pure (.list [ds.map .data].flatten) : Run α (Value α)) = _
      rw [List.flatten_singleton, Option.toList_some, List.flatMap_singleton]
      rfl

theorem Supplied.adds_appendPart (h : Supplied args c below) {types : RuntimeTypes}
    (hp : p ∈ c.method.parameters) {key : String} (hBinding : p.binding = .part key) {kind : PartKind}
    (hKind : BodyEncoding.partKind? types p.type = some kind) :
    Adds rt (formSlot c h.plain below) [appendPart c ⟨key, p.name, kind, p.type.nullable⟩]
      (partCalls rt args types p) := by
  have hVar := h.eval_form rt hp (by simp [hBinding])
  simp only [partCalls, hBinding, hKind]
  cases kind with
  | raw =>
    have hStatement : appendPart c ⟨key, p.name, .raw, p.type.nullable⟩ =
        if p.type.nullable then
          .ifSome c.locals.value (.var p.name)
            [extendForm c "part" key (.var c.locals.value)]
        else extendForm c "part" key (.var p.name) := by
      rw [appendPart]
      cases p.type.nullable <;> rfl
    rw [hStatement]
    exact adds_present (extendForm c "part" key) (h.fits p hp) h.apart.value_form h.plain.value
      hVar hVar fun d _ => addsFor_part key d
  | scalar =>
    have hStatement : appendPart c ⟨key, p.name, .scalar, p.type.nullable⟩ =
        if p.type.nullable then
          .ifSome c.locals.value (.borrow (.var p.name))
            [extendForm c "text" key (toText (.var c.locals.value))]
        else extendForm c "text" key (toText (.var p.name)) := by
      rw [appendPart]
      cases p.type.nullable <;> rfl
    rw [hStatement]
    refine adds_present (fun e => extendForm c "text" key (toText e)) (h.fits p hp)
      h.apart.value_form h.plain.value (fun before => ?_) hVar fun d _ => addsFor_text key d
    rw [eval, hVar before]
  | list => exact h.adds_eachPart hp (by simp [hBinding]) (isList_of_partKind? hKind) key

end TraitClient.MethodBody
