import TraitClient.Proofs.RequestStatements

/-!
# Runs of generated methods

The body of a generated method builds its request from the arguments, sends it and reads the
response.  What a run does is said by the method alone; the one way for the code to differ is a raw
parameter of the same identifier as a local.
-/
namespace TraitClient

namespace BodyEncoding

open Validation (AtMostOneBody)

def partSpec? (types : RuntimeTypes) (p : Parameter) : Option PartSpec :=
  (partKind? types p.type).map fun kind => ⟨partKey p, p.name, kind, p.type.nullable⟩

inductive EncodedAs (types : RuntimeTypes) (m : Method) : BodyEncoding → Prop
  | noBody : EncodedAs types m .noBody
  | jsonObject {body : Parameter} : m.bodies = [body] → EncodedAs types m (.jsonObject body.name)
  | jsonMap : EncodedAs types m
      (.jsonMap (m.parameters.filterMap fieldSpec?) (m.parameters.filterMap mapSpec?))
  | formUrlEncoded : EncodedAs types m
      (.formUrlEncoded (m.parameters.filterMap fieldSpec?) (m.parameters.filterMap mapSpec?))
  | multipartForm {body : Parameter} :
      m.bodies = [body] → EncodedAs types m (.multipartForm body.name)
  | multipartParts : (∀ p ∈ m.parts, ∃ kind, partKind? types p.type = some kind) →
      EncodedAs types m (.multipartParts (m.parts.filterMap (partSpec? types)))

theorem partSpecs_ok {interface : String} {m : Method} {types : RuntimeTypes}
    {ps : List Parameter} {specs : List PartSpec}
    (h : partSpecs interface m types ps = .ok specs) :
    specs = ps.filterMap (partSpec? types) ∧ ∀ p ∈ ps, ∃ kind, partKind? types p.type = some kind := by
  induction ps generalizing specs with
  | nil =>
    cases h
    exact ⟨rfl, fun p hp => absurd hp List.not_mem_nil⟩
  | cons p ps ih =>
    rw [partSpecs] at h
    cases hKind : partKind? types p.type with
    | none =>
      rw [partSpec, hKind] at h
      cases h
    | some kind =>
      rw [partSpec, hKind] at h
      cases hRest : partSpecs interface m types ps with
      | error err =>
        rw [hRest] at h
        cases h
      | ok rest =>
        rw [hRest] at h
        cases h
        obtain ⟨rfl, hKinds⟩ := ih hRest
        refine ⟨?_, List.forall_mem_cons.mpr ⟨⟨kind, hKind⟩, hKinds⟩⟩
        rw [List.filterMap_cons, partSpec?, hKind]
        rfl

theorem encodedAs_ofMethod {types : RuntimeTypes} {interface : String} {m : Method}
    {e : BodyEncoding} (hOne : AtMostOneBody m) (h : ofMethod interface types m = .ok e) :
    EncodedAs types m e := by
  have hLength := (Validation.atMostOneBody_iff m).mp hOne
  have hSingle {body : Parameter} {others : List Parameter} (hBodies : m.bodies = body :: others) :
      m.bodies = [body] := by
    rw [hBodies, List.length_cons] at hLength
    rw [hBodies, List.length_eq_zero_iff.mp (by omega : others.length = 0)]
  unfold ofMethod at h
  split at h
  · rename_i hBodies
    cases h
    exact .multipartForm (hSingle hBodies)
  · cases hSpecs : partSpecs interface m types m.parts with
    | error err =>
      rw [hSpecs] at h
      cases h
    | ok specs =>
      rw [hSpecs] at h
      cases h
      obtain ⟨rfl, hKinds⟩ := partSpecs_ok hSpecs
      exact .multipartParts hKinds
  · rename_i hBodies
    cases h
    exact .jsonObject (hSingle hBodies)
  · cases h
    split
    · exact .formUrlEncoded
    · split
      · exact .noBody
      · exact .jsonMap

end BodyEncoding

namespace MethodBody

open Code (Data Value Call Runtime Run Scope Slot Adds Expr Statement eval evalAll exec execAll
  attempt attempts identifier builderMethods)
open BodyEncoding (EncodedAs)

variable {α : Type} {rt : Runtime α} {args : Arguments α} {c : Context} {p : Parameter}
  {arguments : List (Value α)} {below : Scope α} {types : RuntimeTypes} {e : BodyEncoding}

/-! ## The body of the request -/

/-- Statements that end with calls on the request; what they bind stays above it. -/
def Builds (rt : Runtime α) (s : Slot α) (statements : List Statement) (check : Run α PUnit)
    (calls : List (Call α)) : Prop :=
  ∀ before, ∃ front, s.Below front ∧ execAll rt (s.scope before) statements =
    check >>= fun _ => pure (front ++ s.scope (before ++ calls))

theorem Builds.of_adds {s : Slot α} {statements : List Statement} {calls : List (Call α)}
    (hSafe : Code.canFail s.origin.1 = false) (h : Adds rt s statements calls) :
    Builds rt s statements (pure ⟨⟩) calls := by
  intro before
  refine ⟨[], Slot.below_nil, ?_⟩
  rw [h before, Code.attempts_of_safe hSafe]
  rfl

theorem Builds.after_adds {s : Slot α} {a b : List Statement} {check : Run α PUnit}
    {calls calls' : List (Call α)} (hSafe : Code.canFail s.origin.1 = false)
    (hA : Adds rt s a calls) (hB : Builds rt s b check calls') :
    Builds rt s (a ++ b) check (calls ++ calls') := by
  intro before
  obtain ⟨front, hFront, hRun⟩ := hB (before ++ calls)
  refine ⟨front, hFront, ?_⟩
  rw [Adds.execAll_append, hA before, Code.attempts_of_safe hSafe, Run.pure_bind, Run.pure_bind,
    hRun, List.append_assoc]

theorem Supplied.below_request (h : Supplied args c below) (isMut : Bool)
    (arguments : List (Value α)) (before : List (Call α)) :
    Supplied args c ((requestSlot c h.plain isMut arguments below).scope before) :=
  ⟨h.fits, h.reads_request isMut before, h.plain, h.apart, h.unshadowed⟩

theorem builds_given {hPlain : c.locals.Plain} {x name : String} (type : String) {isMut : Bool}
    {statements : List Statement} (argument : Expr) {calls : List (Call α)} (hx : identifier x = x)
    (hApart : x ≠ c.locals.request) (hName : name ∈ builderMethods "request")
    (hArgument : ∀ scope v, scope.lookup? x = some v → eval rt scope argument = pure v)
    (hAdds : ∀ before, Adds rt ⟨x, isMut, (type ++ "::new", []),
      (requestSlot c hPlain true arguments below).scope before, hx⟩ statements calls) :
    Builds rt (requestSlot c hPlain true arguments below)
      (.letValue isMut x (.call (.runtime [type, "new"]) []) :: statements ++
        [extend c name [argument]])
      (attempts rt (type ++ "::new") calls) [(name, [.object (type ++ "::new", []) calls])] := by
  intro before
  let made : Code.Local α := ⟨x, isMut, .object (type ++ "::new", []) calls⟩
  let request := requestSlot c hPlain true arguments below
  have hFront : request.Below [made] := by
    intro l hl
    obtain rfl := List.mem_singleton.mp hl
    exact hApart
  have hMade : exec rt (request.scope before)
      (.letValue isMut x (.call (.runtime [type, "new"]) [])) =
        pure (⟨x, isMut, .object (type ++ "::new", []) []⟩ :: request.scope before) := by
    rw [exec, eval, evalAll, Run.pure_bind, Code.function?, Run.ofOption_some, Run.pure_bind,
      Scope.bind, hx]
  have hGiven : evalAll rt ([made] ++ request.scope before) [argument] = pure [made.value] := by
    have hLookup : Scope.lookup? ([made] ++ request.scope before) x = some made.value := by
      simp [Scope.lookup?, hx, made]
    rw [evalAll, hArgument _ _ hLookup]
    rfl
  have hExtend : exec rt ([made] ++ request.scope before) (extend c name [argument]) =
      pure ([made] ++ request.scope (before ++ [(name, [made.value])])) := by
    have hAssign := Slot.exec_assign (s := request) rfl hFront (mem_requestMethods hName) hGiven
    rw [Code.attempts_of_safe rfl] at hAssign
    exact hAssign
  refine ⟨[made], hFront, ?_⟩
  have hFilled := hAdds before []
  rw [Slot.scope, List.nil_append] at hFilled
  rw [List.cons_append, execAll, hMade, Run.pure_bind, Adds.execAll_append, hFilled, Run.bind_assoc]
  refine bind_congr fun _ => ?_
  rw [Run.pure_bind, execAll]
  change (exec rt ([made] ++ request.scope before) (extend c name [argument]) >>= _) = _
  rw [hExtend]
  rfl

theorem Supplied.builds_collected (h : Supplied args c below) {collection : Collection}
    (hKnown : collection.Known) (hMaps : Validation.FieldMapsAreMaps c.method) {name : String}
    (hName : name ∈ builderMethods "request") :
    Builds rt (requestSlot c h.plain true arguments below)
      (collectFields c collection (c.method.parameters.filterMap BodyEncoding.fieldSpec?)
          (c.method.parameters.filterMap BodyEncoding.mapSpec?) ++
        [extend c name [.borrow (.var c.locals.fields)]])
      (attempts rt (collection.type ++ "::new") (collectedCalls args c.method))
      [(name, [.object (collection.type ++ "::new", []) (collectedCalls args c.method)])] := by
  refine builds_given collection.type _ h.plain.fields h.apart.fields_request hName (fun scope v hLookup => ?_)
    fun before => ?_
  · rw [eval, eval, hLookup]
    rfl
  · exact Adds.of_mut (s := collectionSlot c h.plain collection true _)
      ((h.below_request true arguments before).adds_collected hKnown hMaps)

theorem Supplied.builds_parts (h : Supplied args c below)
    (hKinds : ∀ p ∈ c.method.parts, ∃ kind, BodyEncoding.partKind? types p.type = some kind) :
    Builds rt (requestSlot c h.plain true arguments below)
      (.letValue true c.locals.form (.call (.runtime ["Form", "new"]) []) ::
        (c.method.parts.filterMap (BodyEncoding.partSpec? types)).map (appendPart c) ++
          [extend c "multipart" [.var c.locals.form]])
      (pure ⟨⟩)
      [("multipart",
        [.object ("Form::new", []) (c.method.parts.flatMap (partCalls rt args types))])] := by
  have hAdds (before : List (Call α)) :
      Adds rt (formSlot c h.plain ((requestSlot c h.plain true arguments below).scope before))
        ((c.method.parts.filterMap (BodyEncoding.partSpec? types)).map (appendPart c))
        (c.method.parts.flatMap (partCalls rt args types)) := by
    rw [List.map_filterMap]
    refine Adds.filterMap fun p hp => ?_
    obtain ⟨kind, hKind⟩ := hKinds p hp
    obtain ⟨hMem, hPart⟩ := List.mem_filter.mp hp
    obtain ⟨key, hKey⟩ := Validation.isPart_iff.mp hPart
    have hSpec : BodyEncoding.partSpec? types p = some ⟨key, p.name, kind, p.type.nullable⟩ := by
      simp [BodyEncoding.partSpec?, hKind, BodyEncoding.partKey, hKey]
    rw [hSpec]
    exact (h.below_request true arguments before).adds_appendPart hMem hKey hKind
  have hVar (scope : Scope α) (v : Value α) (hLookup : scope.lookup? c.locals.form = some v) :
      eval rt scope (.var c.locals.form) = pure v := by
    rw [eval, hLookup]
    rfl
  have hBuilds := builds_given "Form" _ h.plain.form h.apart.form_request
    (by decide : "multipart" ∈ builderMethods "request") hVar hAdds
  rw [Code.attempts_of_safe (by decide)] at hBuilds
  exact hBuilds

/-- The body of a request makes the calls of its encoding. -/
theorem Supplied.builds_body (h : Supplied args c below) (hEncoded : EncodedAs types c.method e)
    (hMaps : Validation.FieldMapsAreMaps c.method) :
    Builds rt (requestSlot c h.plain true arguments below) (body c e)
      (bodyAttempts rt args c.method e) (bodyCalls rt args types c.method e) := by
  have hWhole {body : Parameter} (hBodies : c.method.bodies = [body]) (before : List (Call α)) :
      eval rt ((requestSlot c h.plain true arguments below).scope before) (.var body.name) =
        pure (argumentValue body (args body)) := by
    obtain ⟨hMem, hBinding⟩ := BodyEncoding.mem_bodies_singleton hBodies
    exact h.eval_request rt arguments hMem (by simp [hBinding]) before
  cases hEncoded with
  | noBody => exact .of_adds rfl Adds.nil
  | @jsonObject whole hBodies =>
    rw [bodyCalls, hBodies]
    refine .of_adds rfl (Adds.assign rfl (mem_requestMethods (by decide)) fun before => ?_)
    rw [evalAll, eval, hWhole hBodies before]
    rfl
  | jsonMap => exact h.builds_collected jsonFields_known hMaps (by decide)
  | formUrlEncoded =>
    have hBuilds : Builds rt (requestSlot c h.plain true arguments below) _ _ _ :=
      h.builds_collected formFields_known hMaps (by decide : "form" ∈ builderMethods "request")
    rw [Code.attempts_of_safe (by decide)] at hBuilds
    exact hBuilds
  | @multipartForm whole hBodies =>
    rw [bodyCalls, hBodies]
    refine .of_adds rfl (Adds.assign rfl (mem_requestMethods (by decide)) fun before => ?_)
    rw [evalAll, hWhole hBodies before]
    rfl
  | multipartParts hKinds => exact h.builds_parts hKinds

/-! ## The request -/

/-- The variable of the request is mutable only where the request is changed. -/
theorem Supplied.builds_request (h : Supplied args c below) (rt : Runtime α)
    (arguments : List (Value α)) (hEncoded : EncodedAs types c.method e)
    (hMaps : Validation.FieldMapsAreMaps c.method) :
    Builds rt (requestSlot c h.plain (!(requestStatements c e).isEmpty) arguments below)
      (requestStatements c e) (bodyAttempts rt args c.method e)
      (requestCalls rt args types c.method e) := by
  have hHead : Adds rt (requestSlot c h.plain true arguments below)
      (staticHeaders c ++ query c ++ headers c) (staticHeaderCalls c.method ++
        c.method.parameters.flatMap (queryCalls rt args) ++
          c.method.parameters.flatMap (headerCalls rt args)) :=
    (adds_staticHeaders.append h.adds_query).append h.adds_headers
  have hBody : Builds rt (requestSlot c h.plain true arguments below) _ _ _ :=
    h.builds_body hEncoded hMaps
  have hAll := Builds.after_adds rfl hHead hBody
  -- A request that no statement changes is in a variable that is not mutable.
  cases hStatements : (requestStatements c e).isEmpty with
  | true =>
    rw [List.isEmpty_iff] at hStatements
    obtain ⟨hNone, hNoBody⟩ := List.append_eq_nil_iff.mp hStatements
    rw [hNone] at hHead
    obtain rfl : e = .noBody := by
      cases hEncoded with
      | noBody => rfl
      | multipartParts => cases hNoBody
      | _ => simp [body, collectFields] at hNoBody
    refine fun before => ⟨[], Slot.below_nil, ?_⟩
    rw [hStatements, requestCalls, hHead.eq_nil]
    simp [execAll, bodyCalls, bodyAttempts]
  | false => exact hAll

/-! ## The whole method -/

section

variable (rt : Runtime α) (args : Arguments α)

def pathValue (m : Method) (key : String) : String :=
  ((m.parameters.find? fun p => p.pathKey? == some key).bind args).elim "" rt.text

def request (types : RuntimeTypes) (m : Method) (e : BodyEncoding) (path : String) : Value α :=
  .object ("request", [.path ["reqwest", "Method", m.verb.text], .url (.text path)])
    (requestCalls rt args types m e)

/-- Sends a request; a failure is one of the call. -/
def send (request : Value α) : Run α PUnit := do
  (⟨[request], .ok ⟨⟩⟩ : Run α PUnit)
  attempt rt ("send", [request])

def read (name : String) (response : Value α) : Run α (Value α) := do
  attempt rt (name, [response])
  pure (.done (.object (name, [response]) []))

def exchange (m : Method) (request : Value α) : Run α (Value α) := do
  send rt request
  if m.successType?.any (·.isUnit) then pure (.done .unit)
  else
    read rt (if m.modifiers.textResponse then "read_text" else "read_json")
      (.object ("send", [request]) [])

/-- What a method does: each step ends the run where it fails. -/
def methodRun (types : RuntimeTypes) (m : Method) (e : BodyEncoding) (path : String) :
    Run α (Value α) := do
  attempt rt ("endpoint", [.text path])
  bodyAttempts rt args m e
  exchange rt m (request rt args types m e path)

end

theorem runBody_cons {scope : Scope α} (st : Statement) {rest : List Statement}
    (hRest : rest ≠ []) : Code.runBody rt scope (st :: rest) =
      exec rt scope st >>= fun scope => Code.runBody rt scope rest := by
  rw [Code.runBody]
  exact fun _ _ hNil => hRest hNil

theorem runBody_append (scope : Scope α) (a : List Statement) {b : List Statement} (hb : b ≠ []) :
    Code.runBody rt scope (a ++ b) =
      execAll rt scope a >>= fun scope => Code.runBody rt scope b := by
  induction a generalizing scope with
  | nil => rfl
  | cons st a ih =>
    rw [List.cons_append, runBody_cons st (List.append_ne_nil_of_right_ne_nil a hb), execAll,
      Run.bind_assoc]
    exact bind_congr fun scope => ih scope

theorem eval_propagate {scope : Scope α} {e : Expr} (check : Run α PUnit) {call : Call α}
    {v : Value α} (hEval : eval rt scope e = check >>= fun _ => pure (.outcome call v)) :
    eval rt scope (.propagate e) = check >>= fun _ => attempt rt call >>= fun _ => pure v := by
  rw [eval, hEval, Run.bind_assoc]
  refine bind_congr fun _ => ?_
  rw [Run.pure_bind, Code.propagate, attempt]
  split <;> rfl

/-- `runtime::name(e).await?`. -/
def awaited (name : String) (e : Expr) : Expr :=
  .propagate (.await (.call (.runtime [name]) [e]))

theorem eval_awaited {scope : Scope α} {e : Expr} {v : Value α} (name : String)
    (hEval : eval rt scope e = pure v) :
    eval rt scope (awaited name e) =
      (⟨if name = "send" then [v] else [], .ok ⟨⟩⟩ : Run α PUnit) >>= fun _ =>
        attempt rt (name, [v]) >>= fun _ => pure (.object (name, [v]) []) := by
  refine eval_propagate _ ?_
  have hFuture : eval rt scope (.call (.runtime [name]) [e]) = pure (.future (name, [v])) := by
    rw [eval, evalAll, evalAll, hEval, Run.pure_bind, Run.pure_bind, Run.pure_bind]
    rfl
  rw [eval, hFuture, Run.pure_bind, Code.await]
  split <;> rfl

theorem eval_send {scope : Scope α} {e : Expr} {v : Value α} (hEval : eval rt scope e = pure v) :
    eval rt scope (awaited "send" e) =
      send rt v >>= fun _ => pure (.object ("send", [v]) []) := by
  rw [eval_awaited "send" hEval, if_pos rfl, send, Run.bind_assoc]

theorem eval_read {scope : Scope α} {e : Expr} {v : Value α} {name : String}
    (hName : name ≠ "send") (hEval : eval rt scope e = pure v) :
    eval rt scope (awaited name e) =
      attempt rt (name, [v]) >>= fun _ => pure (.object (name, [v]) []) := by
  rw [eval_awaited name hEval, if_neg hName]
  exact Run.pure_bind _ _

theorem runBody_ok {scope : Scope α} {e : Expr} :
    Code.runBody rt scope [.result (.call (.var "Ok") [e])] =
      eval rt scope e >>= fun v => pure (.done v) := by
  rw [Code.runBody, eval, evalAll, evalAll, Run.bind_assoc]
  rfl

theorem exec_eval {scope : Scope α} {e : Expr} (h : Code.mutation? e = none) :
    exec rt scope (.run e) = eval rt scope e >>= fun _ => pure scope := by
  rw [exec, h]

theorem respond_eq (c : Context) :
    respond c = if c.method.successType?.any (·.isUnit) then
        [.run (awaited "send" (.var c.locals.request)), .result (.call (.var "Ok") [.unit])]
      else
        [.letValue false c.locals.response (awaited "send" (.var c.locals.request)),
          .result (.call (.var "Ok")
            [awaited (if c.method.modifiers.textResponse then "read_text" else "read_json")
              (.var c.locals.response)])] := by
  unfold respond
  cases c.method.modifiers.textResponse with
  | true => cases c.method.successType? <;> rfl
  | false => cases c.method.successType? <;> rfl

theorem respond_ne_nil (c : Context) : respond c ≠ [] := by
  rw [respond_eq]
  split <;> simp

theorem runBody_respond {scope : Scope α} {v : Value α}
    (hRequest : scope.lookup? c.locals.request = some v) :
    Code.runBody rt scope (respond c) = exchange rt c.method v := by
  have hVar : eval rt scope (.var c.locals.request) = pure v := by
    rw [eval, hRequest]
    rfl
  rw [respond_eq, exchange]
  split
  · rw [runBody_cons _ (by simp), exec_eval rfl, eval_send hVar, Run.bind_assoc, Run.bind_assoc]
    rfl
  · have hName : (if c.method.modifiers.textResponse then "read_text" else "read_json") ≠ "send" := by
      split <;> decide
    have hResponse : eval rt
        (Scope.bind c.locals.response false (.object ("send", [v]) []) scope)
          (.var c.locals.response) = pure (.object ("send", [v]) []) := by
      simp [eval, Scope.lookup?, Scope.bind]
    rw [runBody_cons _ (by simp), exec, eval_send hVar, Run.bind_assoc, Run.bind_assoc]
    refine bind_congr fun _ => ?_
    rw [Run.pure_bind, Run.pure_bind, runBody_ok, eval_read hName hResponse, Run.bind_assoc]
    rfl

theorem lookup?_argumentScope {ps : List Parameter}
    (hDistinct : (ps.map fun p => identifier p.name).Nodup) (hp : p ∈ ps)
    (hBound : p.binding ≠ .unbound) :
    (argumentScope args ps).lookup? p.name = some (argumentValue p (args p)) := by
  induction ps with
  | nil => exact absurd hp List.not_mem_nil
  | cons q ps ih =>
    obtain ⟨hHead, hRest⟩ := List.nodup_cons.mp hDistinct
    rw [argumentScope]
    rcases List.mem_cons.mp hp with rfl | hp
    · rw [List.filter_cons_of_pos (by simp [hBound]), List.map_cons, Scope.lookup?,
        List.find?_cons_of_pos (by simp)]
      rfl
    · rw [← ih hRest hp, List.filter_cons]
      split
      · have hApart : identifier q.name ≠ identifier p.name := fun hEq =>
          hHead (List.mem_map.mpr ⟨p, hp, hEq.symm⟩)
        rw [List.map_cons, Scope.lookup?, List.find?_cons_of_neg (by simpa using hApart)]
        rfl
      · rfl

theorem find?_pathKey {ps : List Parameter} {key : String}
    (hDistinct : ps.Pairwise fun p q => ∀ key, p.binding = .path key → q.binding ≠ .path key)
    (hp : p ∈ ps) (hKey : p.binding = .path key) :
    ps.find? (fun p => p.pathKey? == some key) = some p := by
  induction ps with
  | nil => exact absurd hp List.not_mem_nil
  | cons q ps ih =>
    obtain ⟨hHead, hRest⟩ := List.pairwise_cons.mp hDistinct
    rcases List.mem_cons.mp hp with rfl | hp
    · exact List.find?_cons_of_pos (by simp [Validation.pathKey?_eq_some_iff.mpr hKey])
    · rw [List.find?_cons_of_neg, ih hRest hp]
      intro hFound
      have hOther : q.binding = .path key := Validation.pathKey?_eq_some_iff.mp (by simpa using hFound)
      exact hHead p hp key hOther hKey

theorem holdsPath_of_reads {m : Method} {scope : Scope α}
    (hKeys : Validation.PathKeysMatch m) (hFits : ∀ p ∈ m.parameters, Fits p (args p))
    (hReads : Reads args m scope) : HoldsPath rt scope m (pathValue rt args m) := by
  intro p hp key hKey
  obtain ⟨d, hData, hValue⟩ := (hFits p hp).exists_data (hKeys.required p hp key hKey)
  refine ⟨d, hValue ▸ hReads p hp (by simp [hKey]), ?_⟩
  rw [pathValue, find?_pathKey hKeys.distinct hp hKey, Option.bind_some, hData]
  rfl

theorem runBody_statements {scope : Scope α} {path : String} (h : Supplied args c scope)
    (hEncoded : EncodedAs types c.method e) (hMaps : Validation.FieldMapsAreMaps c.method)
    (hPath : eval rt scope (endpoint c) = pure (.text path)) :
    Code.runBody rt scope (statements c e) = methodRun rt args types c.method e path := by
  let verb : Value α := .path ["reqwest", "Method", c.method.verb.text]
  let url : Value α := .url (.text path)
  let bound : Scope α := ⟨c.locals.url, false, url⟩ :: ⟨c.locals.client, false, .client⟩ :: scope
  have hEndpoint : eval rt scope
      (.propagate (.method (.field (.var "self") "context") "endpoint" [endpoint c])) =
        attempt rt ("endpoint", [.text path]) >>= fun _ => pure (.pair .client url) := by
    refine (eval_propagate (pure ⟨⟩) ?_).trans (Run.pure_bind _ _)
    rw [Code.eval_method (by decide), eval, evalAll, evalAll, hPath]
    rfl
  -- The variables of the client and of its URL hide no parameter.
  have hBound : Supplied args c bound := by
    refine ⟨h.fits, (h.reads.bind fun p hp hEq => ?_).bind fun p hp hEq => ?_, h.plain, h.apart,
      h.unshadowed⟩
    · exact h.unshadowed p hp (by simp [hEq, Locals.lasting])
    · exact h.unshadowed p hp (by simp [hEq, Locals.lasting])
  have hPair : exec rt scope (.letPair c.locals.client c.locals.url
      (.propagate (.method (.field (.var "self") "context") "endpoint" [endpoint c]))) =
        attempt rt ("endpoint", [.text path]) >>= fun _ => pure bound := by
    rw [exec, hEndpoint, Run.bind_assoc]
    refine bind_congr fun _ => ?_
    simp [Scope.bind, h.plain.client, h.plain.url, bound]
  have hRequest (isMut : Bool) : exec rt bound (.letValue isMut c.locals.request
      (.method (.var c.locals.client) "request"
        [.runtime ["reqwest", "Method", c.method.verb.text], .var c.locals.url])) =
      pure ((requestSlot c h.plain isMut [verb, url] bound).scope []) := by
    have hClient : bound.lookup? c.locals.client = some .client := by
      simp [bound, Scope.lookup?, h.plain.client, h.apart.client_url.symm]
    have hUrl : bound.lookup? c.locals.url = some url := by
      simp [bound, Scope.lookup?, h.plain.url]
    rw [exec, Code.eval_method (by decide), eval, hClient, evalAll, evalAll, evalAll, eval, eval,
      hUrl]
    simp [Code.method?, Scope.bind, Slot.scope, requestSlot, h.plain.request, verb]
  obtain ⟨front, hFront, hBuild⟩ := hBound.builds_request rt [verb, url] hEncoded hMaps []
  rw [statements, List.cons_append, List.cons_append, runBody_cons _ (by simp), hPair,
    Run.bind_assoc, methodRun]
  refine bind_congr fun _ => ?_
  rw [Run.pure_bind, runBody_cons _ (by simp [respond_ne_nil]), hRequest, Run.pure_bind,
    runBody_append _ _ (respond_ne_nil c), hBuild, Run.bind_assoc]
  refine bind_congr fun _ => ?_
  rw [Run.pure_bind]
  exact runBody_respond (Slot.lookup?_scope hFront _)

theorem length_bodyCalls (rt : Runtime α) (args : Arguments α) {m : Method}
    (hEncoded : EncodedAs types m e) :
    (bodyCalls rt args types m e).length = if e = .noBody then 0 else 1 := by
  cases hEncoded with
  | jsonObject hBodies => simp [bodyCalls, hBodies]
  | multipartForm hBodies => simp [bodyCalls, hBodies]
  | _ => rfl

/-- The generated function does what its method says, for all arguments that fit.  The scope holds
no argument of an unbound parameter, so that none is read. -/
structure Means (rt : Runtime α) (args : Arguments α) (types : RuntimeTypes) (m : Method)
    (e : BodyEncoding) : Prop where
  run : ∃ path, Template.Substituted (pathValue rt args m) m.template.toList path ∧
    Code.runBody rt (argumentScope args m.parameters) (function m e).body =
      methodRun rt args types m e (String.ofList path)
  bodyOnce : (bodyCalls rt args types m e).length = if e = .noBody then 0 else 1

theorem function_means (types : RuntimeTypes) (interface : String) (m : Method) (e : BodyEncoding)
    (hValid : Validation.fault? types m = none)
    (hEncoding : BodyEncoding.ofMethod interface types m = .ok e)
    (hDistinct : (m.parameters.map fun p => identifier p.name).Nodup)
    (hUnshadowed : Locals.Unshadowed m) (rt : Runtime α) (args : Arguments α)
    (hFits : ∀ p ∈ m.parameters, Fits p (args p)) : Means rt args types m e := by
  have hKept := Validation.fault?_eq_none_iff.mp hValid
  have hOne : Validation.AtMostOneBody m := hKept .bodyCardinality (by decide)
  have hKeys : Validation.PathKeysMatch m := hKept .pathPlaceholders (by decide)
  have hMaps : Validation.FieldMapsAreMaps m := hKept .fieldMapType (by decide)
  have hEncoded := BodyEncoding.encodedAs_ofMethod hOne hEncoding
  have hReads : Reads args m (argumentScope args m.parameters) := fun p hp hBound =>
    lookup?_argumentScope hDistinct hp hBound
  have hSupplied : Supplied args (.ofMethod m) (argumentScope args m.parameters) :=
    ⟨hFits, hReads, Locals.plain_ofMethod m, Locals.apart_ofMethod m, hUnshadowed⟩
  obtain ⟨path, hPath, hEval⟩ := eval_endpoint (c := .ofMethod m) hValid
    (holdsPath_of_reads hKeys hFits hReads)
  exact ⟨⟨path, hPath, runBody_statements hSupplied hEncoded hMaps hEval⟩,
    length_bodyCalls rt args hEncoded⟩

/-- A method with an optional list, a field and a map that are absent or present, and a parameter
that nothing reads. -/
def saveMethod : Method where
  name := "save"
  declaredIn := "PostApi"
  verb := .put
  template := "/posts/\x7bid\x7d"
  parameters :=
    [⟨"id", .named "u64" "u64", .path "id"⟩,
      ⟨"trace", .named "u64" "u64", .unbound⟩,
      ⟨"tags", { TypeRef.named "std::vec::Vec" "Vec" with
        arguments := [.named "u32" "u32"], nullable := true }, .query "tag"⟩,
      ⟨"token", { TypeRef.named "std::string::String" "String" with nullable := true },
        .header "X-Token"⟩,
      ⟨"extra", { TypeRef.named "std::collections::HashMap" "HashMap" with
        arguments := [.named "std::string::String" "String", .named "u32" "u32"] }, .fieldMap⟩,
      ⟨"title", .named "std::string::String" "String", .field "Title"⟩]
  returnType :=
    { TypeRef.named "std::result::Result" "Result" with
      arguments := [.unit, .named "ApiError" "ApiError"] }
  modifiers := { headers := [⟨"Accept", "text/plain"⟩] }
  signature := ⟨true, true, false⟩

/-- Values are texts, and every call succeeds. -/
def textRuntime : Runtime String where
  text
    | .atom s => s
    | _ => ""
  succeeds _ := true

def saveArguments : Arguments String := fun p =>
  match p.name with
  | "id" => some (.atom "7")
  | "tags" => some (.list [.atom "1", .atom "2"])
  | "extra" => some (.map [(.atom "lang", .atom "en")])
  | "title" => some (.atom "Hello")
  | "trace" => some (.atom "0")
  | _ => none

def saveEncoding : BodyEncoding := .jsonMap [⟨"Title", "title", false⟩] [⟨"extra", false⟩]

theorem saveMethod_means :
    Means textRuntime saveArguments (.ofPath "crate::runtime") saveMethod saveEncoding ∧
    requestCalls textRuntime saveArguments (.ofPath "crate::runtime") saveMethod saveEncoding =
      [("header", [.text "Accept", .text "text/plain"]),
        ("query", [.list [.pair (.text "tag") (.text "1")]]),
        ("query", [.list [.pair (.text "tag") (.text "2")]]),
        ("json", [.object ("JsonFields::new", [])
          [("insert", [.text "Title", .data (.atom "Hello")]),
            ("extend", [.list [.pair (.data (.atom "lang")) (.data (.atom "en"))]])]])] := by
  constructor
  · exact function_means (.ofPath "crate::runtime") "PostApi" saveMethod saveEncoding
      (by decide +kernel) rfl (by decide +kernel)
      (Locals.unshadowed_of_not_raw (by decide +kernel)) textRuntime saveArguments
      (by decide +kernel)
  · rfl

/-- A method with a raw parameter of the same identifier as the local of the request. -/
def searchMethod : Method where
  name := "search"
  declaredIn := "PostApi"
  verb := .get
  template := "/posts"
  parameters := [⟨"r#request", .named "std::string::String" "String", .query "request"⟩]
  returnType :=
    { TypeRef.named "std::result::Result" "Result" with
      arguments := [.unit, .named "ApiError" "ApiError"] }
  modifiers := {}
  signature := ⟨true, true, false⟩

/-- The raw parameter is read below the local that hides it. -/
theorem not_means_searchMethod :
    Validation.fault? (.ofPath "crate::runtime") searchMethod = none ∧
    BodyEncoding.ofMethod "PostApi" (.ofPath "crate::runtime") searchMethod = .ok .noBody ∧
    (searchMethod.parameters.map fun p => identifier p.name).Nodup ∧
    (∀ p ∈ searchMethod.parameters, Fits p (some (Data.atom "lean"))) ∧
    ¬Means textRuntime (fun _ => some (.atom "lean")) (.ofPath "crate::runtime") searchMethod
      .noBody := by
  refine ⟨by decide +kernel, rfl, by decide +kernel, by decide +kernel, ?_⟩
  rintro ⟨⟨path, -, hRun⟩, -⟩
  have hStuck : (Code.runBody textRuntime
      (argumentScope (fun _ => some (.atom "lean")) searchMethod.parameters)
      (function searchMethod .noBody).body).result.toBool = false := by decide +kernel
  rw [hRun] at hStuck
  cases hStuck

end MethodBody
end TraitClient
