import Mathlib.Data.List.Forall2
import TraitClient.Emission.MethodBody
import TraitClient.Proofs.MethodRuns

/-!
# Parameters in the scope of a generated body

The locals of a body are picked by their spelling, while two names are one variable as soon as they
are the same identifier.  So there is a parameter that cannot be told from a local: the raw form of a
name that the pick comes to.  In the body of a method without such a parameter no local stands between
a parameter and its argument.
-/
namespace TraitClient

/-! ## Occurrences of variables -/

namespace Code

/-- A variable where it is used, with the names that are bound around it, innermost first. -/
structure Occurrence where
  name : String
  bound : List String
  deriving Repr, DecidableEq

/-- The occurrence is one of what the function was called with. -/
def Occurrence.IsFree (o : Occurrence) : Prop := ∀ b ∈ o.bound, identifier b ≠ identifier o.name

instance (o : Occurrence) : Decidable o.IsFree :=
  inferInstanceAs (Decidable (∀ b ∈ o.bound, _))

mutual

def Expr.variables : Expr → List String
  | .var name => [name]
  | .string _ => []
  | .unit => []
  | .runtime _ => []
  | .associated _ _ => []
  | .field target _ => target.variables
  | .construct fields => fields
  | .pair first second => first.variables ++ second.variables
  | .singleton element => element.variables
  | .borrow target => target.variables
  | .call function arguments => function.variables ++ Expr.listVariables arguments
  | .method receiver _ arguments => receiver.variables ++ Expr.listVariables arguments
  | .await target => target.variables
  | .propagate target => target.variables
  | .format _ arguments => Expr.listVariables arguments
  | .closure parameter body =>
    body.variables.filter fun name => identifier name ≠ identifier parameter

def Expr.listVariables : List Expr → List String
  | [] => []
  | e :: rest => e.variables ++ Expr.listVariables rest

end

def Statement.binds : Statement → List String
  | .letValue _ name _ => [name]
  | .letPair first second _ => [first, second]
  | _ => []

def occurrencesIn (bound : List String) (e : Expr) : List Occurrence :=
  e.variables.map (⟨·, bound⟩)

mutual

def Statement.occurrences (bound : List String) : Statement → List Occurrence
  | .letValue _ _ value => occurrencesIn bound value
  | .letPair _ _ value => occurrencesIn bound value
  | .assign name value => ⟨name, bound⟩ :: occurrencesIn bound value
  | .forEach name source body =>
    occurrencesIn bound source ++ Statement.listOccurrences (name :: bound) body
  | .ifSome name source body =>
    occurrencesIn bound source ++ Statement.listOccurrences (name :: bound) body
  | .run e => occurrencesIn bound e
  | .result e => occurrencesIn bound e

def Statement.listOccurrences (bound : List String) : List Statement → List Occurrence
  | [] => []
  | st :: rest => st.occurrences bound ++ Statement.listOccurrences (st.binds ++ bound) rest

end

mutual

def Statement.binders : Statement → List String
  | .letValue _ name _ => [name]
  | .letPair first second _ => [first, second]
  | .assign _ _ => []
  | .forEach name _ body => name :: Statement.listBinders body
  | .ifSome name _ body => name :: Statement.listBinders body
  | .run _ => []
  | .result _ => []

def Statement.listBinders : List Statement → List String
  | [] => []
  | st :: rest => st.binders ++ Statement.listBinders rest

end

theorem binds_subset (st : Statement) : st.binds ⊆ st.binders := by
  cases st <;> simp [Statement.binds, Statement.binders]

theorem bound_of_mem_occurrencesIn {bound : List String} {e : Expr} {o : Occurrence}
    (h : o ∈ occurrencesIn bound e) : o.bound = bound := by
  obtain ⟨_, _, rfl⟩ := List.mem_map.mp h
  rfl

mutual

theorem bound_of_mem_occurrences {bound names : List String} (st : Statement)
    (hBound : bound ⊆ names) (hBinders : st.binders ⊆ names) {o : Occurrence}
    (h : o ∈ st.occurrences bound) : o.bound ⊆ names := by
  cases st with
  | letValue isMut name value => exact bound_of_mem_occurrencesIn h ▸ hBound
  | letPair first second value => exact bound_of_mem_occurrencesIn h ▸ hBound
  | assign name value =>
    rcases List.mem_cons.mp h with rfl | h
    · exact hBound
    · exact bound_of_mem_occurrencesIn h ▸ hBound
  | forEach name source body =>
    obtain ⟨hName, hBody⟩ := List.cons_subset.mp hBinders
    rcases List.mem_append.mp h with h | h
    · exact bound_of_mem_occurrencesIn h ▸ hBound
    · exact bound_of_mem_listOccurrences body (List.cons_subset.mpr ⟨hName, hBound⟩) hBody h
  | ifSome name source body =>
    obtain ⟨hName, hBody⟩ := List.cons_subset.mp hBinders
    rcases List.mem_append.mp h with h | h
    · exact bound_of_mem_occurrencesIn h ▸ hBound
    · exact bound_of_mem_listOccurrences body (List.cons_subset.mpr ⟨hName, hBound⟩) hBody h
  | run e => exact bound_of_mem_occurrencesIn h ▸ hBound
  | result e => exact bound_of_mem_occurrencesIn h ▸ hBound

theorem bound_of_mem_listOccurrences {bound names : List String} (sts : List Statement)
    (hBound : bound ⊆ names) (hBinders : Statement.listBinders sts ⊆ names) {o : Occurrence}
    (h : o ∈ Statement.listOccurrences bound sts) : o.bound ⊆ names := by
  cases sts with
  | nil => exact absurd h List.not_mem_nil
  | cons st rest =>
    obtain ⟨hHead, hRest⟩ := List.append_subset.mp hBinders
    rcases List.mem_append.mp h with h | h
    · exact bound_of_mem_occurrences st hBound hHead h
    · have hBehind : st.binds ++ bound ⊆ names :=
        List.append_subset.mpr ⟨fun _ hName => hHead (binds_subset st hName), hBound⟩
      exact bound_of_mem_listOccurrences rest hBehind hRest h

end

end Code

/-! ## Picks -/

namespace LocalNames

theorem FreshFor.unique {taken : List String} {base name name' : String}
    (h : FreshFor taken base name) (h' : FreshFor taken base name') : name = name' := by
  obtain ⟨count, rfl, hBefore⟩ := h.first
  obtain ⟨count', rfl, hBefore'⟩ := h'.first
  rcases Nat.lt_trichotomy count count' with hLt | rfl | hGt
  · exact absurd (hBefore' count hLt) h.notTaken
  · rfl
  · exact absurd (hBefore count' hGt) h'.notTaken

theorem takeWhile_underscored {base : String} (h : '_' ∉ base.toList) (count : Nat) :
    (underscored base count).toList.takeWhile (· ≠ '_') = base.toList := by
  have hBase : ∀ ch ∈ base.toList, decide (ch ≠ '_') = true :=
    fun ch hch => decide_eq_true fun hEq => h (hEq ▸ hch)
  rw [toList_underscored, List.takeWhile_append_of_pos hBase]
  cases count <;> simp [List.replicate_succ]

theorem underscored_ne {base base' : String} (h : '_' ∉ base.toList) (h' : '_' ∉ base'.toList)
    (hNe : base ≠ base') (count count' : Nat) : underscored base count ≠ underscored base' count' := by
  intro hEq
  apply hNe
  rw [← String.toList_inj, ← takeWhile_underscored h count, hEq, takeWhile_underscored h' count']

theorem freshFor_cons_iff {taken : List String} {base base' name : String} {count : Nat}
    (hBase : '_' ∉ base.toList) (hBase' : '_' ∉ base'.toList) (hNe : base ≠ base') :
    FreshFor (underscored base' count :: taken) base name ↔ FreshFor taken base name := by
  constructor
  · intro h
    obtain ⟨count', hName, hBefore⟩ := h.first
    refine ⟨fun hTaken => h.notTaken (List.mem_cons_of_mem _ hTaken), count', hName, ?_⟩
    intro j hj
    exact (List.mem_cons.mp (hBefore j hj)).resolve_left (underscored_ne hBase hBase' hNe j count)
  · intro h
    obtain ⟨count', hName, hBefore⟩ := h.first
    refine ⟨?_, count', hName, fun j hj => List.mem_cons_of_mem _ (hBefore j hj)⟩
    rw [List.mem_cons, not_or, hName]
    exact ⟨underscored_ne hBase hBase' hNe count' count, hName ▸ h.notTaken⟩

theorem mem_freshAll_iff {taken bases : List String} (hPlain : ∀ base ∈ bases, '_' ∉ base.toList)
    (hNodup : bases.Nodup) {name : String} :
    name ∈ freshAll taken bases ↔ ∃ base ∈ bases, FreshFor taken base name := by
  induction bases generalizing taken with
  | nil => simp [freshAll]
  | cons base bases ih =>
    obtain ⟨hBase, hBases⟩ := List.forall_mem_cons.mp hPlain
    obtain ⟨hNot, hRest⟩ := List.nodup_cons.mp hNodup
    have hFresh := fresh_freshFor taken base
    have hOthers : ∀ other ∈ bases,
        FreshFor (fresh taken base :: taken) other name ↔ FreshFor taken other name := by
      intro other hMem
      obtain ⟨count, hName, _⟩ := hFresh.first
      rw [hName]
      exact freshFor_cons_iff (hBases other hMem) hBase fun hEq => hNot (hEq ▸ hMem)
    rw [freshAll, List.mem_cons, ih hBases hRest, List.exists_mem_cons_iff]
    constructor
    · rintro (rfl | ⟨other, hMem, h⟩)
      · exact .inl hFresh
      · exact .inr ⟨other, hMem, (hOthers other hMem).mp h⟩
    · rintro (h | ⟨other, hMem, h⟩)
      · exact .inl (h.unique hFresh)
      · exact .inr ⟨other, hMem, (hOthers other hMem).mpr h⟩

end LocalNames

namespace Locals

open LocalNames (FreshFor underscored)
open Code (identifier)

theorem bases_plain : ∀ base ∈ bases, '_' ∉ base.toList := by
  decide

theorem bases_nodup : bases.Nodup := by
  decide

/-- Each base has its local, which is picked among the spellings of the parameters. -/
theorem mem_names_iff {m : Method} {name : String} : name ∈ (ofMethod m).names ↔
    ∃ base ∈ bases, FreshFor (m.parameters.map (·.name)) base name := by
  rw [names_ofMethod]
  exact LocalNames.mem_freshAll_iff bases_plain bases_nodup

/-- The raw form of the name that is picked for a local.  The names with fewer underscores are
parameters themselves. -/
def Hidden (m : Method) (p : Parameter) : Prop :=
  ∃ base ∈ bases, ∃ count, p.name = "r#" ++ underscored base count ∧
    ∀ j < count, underscored base j ∈ m.parameters.map (·.name)

theorem identifier_raw (x : String) : identifier ("r#" ++ x) = x := by
  have hChars : ("r#" ++ x).toList = 'r' :: '#' :: x.toList := by simp
  rw [identifier, hChars]
  exact String.ofList_toList

theorem identifier_cases (name : String) : name = identifier name ∨ name = "r#" ++ identifier name := by
  unfold identifier
  split
  · rename_i rest hRaw
    right
    rw [← String.toList_inj, hRaw]
    simp
  · exact .inl rfl

/-- A parameter that is the identifier of a local can only be the raw form of it. -/
theorem hidden_iff {m : Method} (hDistinct : (m.parameters.map fun p => identifier p.name).Nodup)
    {p : Parameter} (hp : p ∈ m.parameters) :
    identifier p.name ∈ (ofMethod m).names ↔ Hidden m p := by
  constructor
  · intro hName
    obtain ⟨base, hBase, hFresh⟩ := mem_names_iff.mp hName
    obtain ⟨count, hCount, hBefore⟩ := hFresh.first
    rcases identifier_cases p.name with hPlain | hRaw
    · exact absurd (hPlain ▸ hName) (not_mem_names hp)
    · exact ⟨base, hBase, count, hCount ▸ hRaw, hBefore⟩
  · rintro ⟨base, hBase, count, hRaw, hBefore⟩
    have hIdentifier : identifier p.name = underscored base count := by
      rw [hRaw, identifier_raw]
    rw [hIdentifier]
    refine mem_names_iff.mpr ⟨base, hBase, ?_, count, rfl, hBefore⟩
    intro hTaken
    obtain ⟨q, hq, hPlain⟩ := List.mem_map.mp hTaken
    have hSame : identifier q.name = identifier p.name := by
      rw [hIdentifier, hPlain]
      exact identifier_underscored hBase count
    obtain rfl := List.inj_on_of_nodup_map hDistinct hq hp hSame
    rw [hRaw] at hPlain
    have hLength := congrArg String.length hPlain
    simp [String.length_append] at hLength

theorem Hidden.takeWhile_eq {m : Method} {p : Parameter} (h : Hidden m p) :
    ∃ base ∈ bases, p.name.toList.takeWhile (· ≠ '_') = 'r' :: '#' :: base.toList := by
  obtain ⟨base, hBase, count, hName, -⟩ := h
  refine ⟨base, hBase, ?_⟩
  have hChars : p.name.toList = 'r' :: '#' :: (underscored base count).toList := by simp [hName]
  rw [hChars, List.takeWhile_cons_of_pos (by decide), List.takeWhile_cons_of_pos (by decide),
    LocalNames.takeWhile_underscored (bases_plain base hBase)]

end Locals

/-! ## What a body binds -/

theorem Code.Statement.listBinders_subset_iff {sts : List Code.Statement} {names : List String} :
    listBinders sts ⊆ names ↔ ∀ st ∈ sts, st.binders ⊆ names := by
  induction sts with
  | nil => simp [listBinders]
  | cons st rest ih => rw [listBinders, List.append_subset, ih, List.forall_mem_cons]

namespace MethodBody

open Code (Expr Statement Occurrence identifier)

def BindsLocals (c : Context) (st : Statement) : Prop := st.binders ⊆ c.locals.names

section

variable {c : Context}

theorem bindsLocals_of_binders_nil {st : Statement} (h : st.binders = []) : BindsLocals c st := by
  rw [BindsLocals, h]
  exact List.nil_subset _

theorem BindsLocals.forEach {name : String} {source : Expr} {st : Statement}
    (hName : name ∈ c.locals.names) (h : BindsLocals c st) :
    BindsLocals c (.forEach name source [st]) := by
  rw [BindsLocals, Statement.binders, List.cons_subset, Statement.listBinders_subset_iff,
    List.forall_mem_singleton]
  exact ⟨hName, h⟩

theorem BindsLocals.ifSome {name : String} {source : Expr} {st : Statement}
    (hName : name ∈ c.locals.names) (h : BindsLocals c st) :
    BindsLocals c (.ifSome name source [st]) := by
  rw [BindsLocals, Statement.binders, List.cons_subset, Statement.listBinders_subset_iff,
    List.forall_mem_singleton]
  exact ⟨hName, h⟩

theorem bindsLocals_extend (name : String) (arguments : List Expr) :
    BindsLocals c (extend c name arguments) := bindsLocals_of_binders_nil rfl

theorem value_mem_names : c.locals.value ∈ c.locals.names := by simp [Locals.names]

theorem part_mem_names : c.locals.part ∈ c.locals.names := by simp [Locals.names]

theorem bindsLocals_eachValue (p : Parameter) {apply : Expr → Statement}
    (h : ∀ e, BindsLocals c (apply e)) : BindsLocals c (eachValue c p apply) := by
  unfold eachValue
  split
  · exact .forEach value_mem_names (h _)
  · exact .forEach value_mem_names (h _)
  · exact .ifSome value_mem_names (h _)
  · exact h _

theorem bindsLocals_queryMap (p : Parameter) : BindsLocals c (queryMap c p) := by
  unfold queryMap
  split
  · exact .ifSome value_mem_names (bindsLocals_extend _ _)
  · exact bindsLocals_extend _ _

theorem bindsLocals_query : ∀ st ∈ query c, BindsLocals c st := by
  intro st hst
  obtain ⟨p, _, hSome⟩ := List.mem_filterMap.mp hst
  split at hSome
  · obtain rfl := Option.some.inj hSome
    split
    · exact bindsLocals_queryMap p
    · exact bindsLocals_eachValue p fun _ => bindsLocals_extend _ _
  · cases hSome

theorem bindsLocals_headers : ∀ st ∈ headers c, BindsLocals c st := by
  intro st hst
  obtain ⟨p, _, hSome⟩ := List.mem_filterMap.mp hst
  split at hSome
  · obtain rfl := Option.some.inj hSome
    exact bindsLocals_eachValue p fun _ => bindsLocals_extend _ _
  · cases hSome

theorem bindsLocals_collect (collection : Collection) (name : String) (arguments : List Expr) :
    BindsLocals c (collect c collection name arguments) := bindsLocals_of_binders_nil rfl

theorem bindsLocals_collectFields (collection : Collection) (fields : List FieldSpec)
    (maps : List MapSpec) : ∀ st ∈ collectFields c collection fields maps, BindsLocals c st := by
  intro st hst
  rcases List.mem_cons.mp hst with rfl | hst
  · simp [BindsLocals, Statement.binders, Locals.names]
  rcases List.mem_append.mp hst with hst | hst
  · obtain ⟨f, _, rfl⟩ := List.mem_map.mp hst
    unfold insertField
    split
    · exact .ifSome value_mem_names (bindsLocals_collect _ _ _)
    · exact bindsLocals_collect _ _ _
  · obtain ⟨m, _, rfl⟩ := List.mem_map.mp hst
    unfold extendByMap
    split
    · exact .ifSome value_mem_names (bindsLocals_collect _ _ _)
    · exact bindsLocals_collect _ _ _

theorem bindsLocals_appendPart (s : PartSpec) : BindsLocals c (appendPart c s) := by
  have hExtend (name key : String) (value : Expr) : BindsLocals c (extendForm c name key value) :=
    bindsLocals_of_binders_nil rfl
  unfold appendPart
  split
  · exact .forEach part_mem_names (hExtend _ _ _)
  · exact .forEach part_mem_names (hExtend _ _ _)
  · exact hExtend _ _ _
  · exact .ifSome value_mem_names (hExtend _ _ _)
  · exact hExtend _ _ _
  · exact .ifSome value_mem_names (hExtend _ _ _)

theorem bindsLocals_body (encoding : BodyEncoding) : ∀ st ∈ body c encoding, BindsLocals c st := by
  cases encoding with
  | noBody => exact fun _ hst => absurd hst List.not_mem_nil
  | jsonObject parameter => exact List.forall_mem_singleton.mpr (bindsLocals_extend _ _)
  | jsonMap fields maps =>
    rw [body, List.forall_mem_append]
    exact ⟨bindsLocals_collectFields _ _ _, List.forall_mem_singleton.mpr (bindsLocals_extend _ _)⟩
  | formUrlEncoded fields maps =>
    rw [body, List.forall_mem_append]
    exact ⟨bindsLocals_collectFields _ _ _, List.forall_mem_singleton.mpr (bindsLocals_extend _ _)⟩
  | multipartForm parameter => exact List.forall_mem_singleton.mpr (bindsLocals_extend _ _)
  | multipartParts parts =>
    rw [body, List.cons_append, List.forall_mem_cons, List.forall_mem_append]
    refine ⟨?_, ?_, List.forall_mem_singleton.mpr (bindsLocals_extend _ _)⟩
    · simp [BindsLocals, Statement.binders, Locals.names]
    · exact List.forall_mem_map.mpr fun s _ => bindsLocals_appendPart s

theorem bindsLocals_respond : ∀ st ∈ respond c, BindsLocals c st := by
  have hResponse : c.locals.response ∈ c.locals.names := by simp [Locals.names]
  rw [respond_eq]
  split
  · simp [BindsLocals, Statement.binders]
  · simpa [BindsLocals, Statement.binders] using hResponse

theorem listBinders_statements (encoding : BodyEncoding) :
    Statement.listBinders (statements c encoding) ⊆ c.locals.names := by
  have hBuilding : ∀ st ∈ requestStatements c encoding, BindsLocals c st := by
    simp only [requestStatements, List.forall_mem_append]
    refine ⟨⟨⟨?_, bindsLocals_query⟩, bindsLocals_headers⟩, bindsLocals_body encoding⟩
    exact List.forall_mem_map.mpr fun h _ => bindsLocals_extend _ _
  rw [Statement.listBinders_subset_iff, statements, List.cons_append, List.forall_mem_cons,
    List.cons_append, List.forall_mem_cons, List.forall_mem_append]
  refine ⟨?_, ?_, hBuilding, bindsLocals_respond⟩
  · simp [Statement.binders, Locals.names]
  · simp [Statement.binders, Locals.names]

end

/-- No parameter of a method is hidden by a local of its body. -/
structure KeepsParameters (m : Method) : Prop where
  distinct : ((Locals.ofMethod m).names.map identifier).Nodup
  apart : ∀ p ∈ m.parameters, identifier p.name ∉ (Locals.ofMethod m).names.map identifier
  refers : ∀ encoding, ∀ o ∈ Statement.listOccurrences [] (function m encoding).body,
    ∀ p ∈ m.parameters, identifier o.name = identifier p.name → o.IsFree

theorem keepsParameters_iff {m : Method}
    (hDistinct : (m.parameters.map fun p => identifier p.name).Nodup) :
    KeepsParameters m ↔ ∀ p ∈ m.parameters, ¬Locals.Hidden m p := by
  have hNames : (Locals.ofMethod m).names.map identifier = (Locals.ofMethod m).names :=
    (List.map_congr_left fun _ => Locals.identifier_of_mem_names).trans (List.map_id _)
  constructor
  · intro h p hp hHidden
    apply h.apart p hp
    rw [hNames]
    exact (Locals.hidden_iff hDistinct hp).mpr hHidden
  · intro h
    have hApart : ∀ p ∈ m.parameters, identifier p.name ∉ (Locals.ofMethod m).names :=
      fun p hp hName => h p hp ((Locals.hidden_iff hDistinct hp).mp hName)
    constructor
    · rw [hNames]
      exact Locals.names_nodup m
    · rw [hNames]
      exact hApart
    · intro encoding o ho p hp hSame b hb hEq
      have hLocal : b ∈ (Locals.ofMethod m).names :=
        Code.bound_of_mem_listOccurrences _ (List.nil_subset _) (listBinders_statements encoding) ho hb
      apply hApart p hp
      rw [← hSame, ← hEq, Locals.identifier_of_mem_names hLocal]
      exact hLocal

/-- A method whose parameters have names that locals would have, and names of the generated code. -/
def crowdedMethod : Method :=
  { searchMethod with
    parameters := ["request", "request_", "values", "r#type"].map fun name =>
      ⟨name, .named "std::string::String" "String", .query name⟩ }

theorem crowdedMethod_keepsParameters :
    (crowdedMethod.parameters.map fun p => identifier p.name).Nodup ∧
      KeepsParameters crowdedMethod := by
  have hDistinct : (crowdedMethod.parameters.map fun p => identifier p.name).Nodup := by
    decide +kernel
  refine ⟨hDistinct, (keepsParameters_iff hDistinct).mpr ?_⟩
  have hStems : ∀ p ∈ crowdedMethod.parameters, ∀ base ∈ Locals.bases,
      p.name.toList.takeWhile (· ≠ '_') ≠ 'r' :: '#' :: base.toList := by
    decide +kernel
  intro p hp hHidden
  obtain ⟨base, hBase, hStem⟩ := hHidden.takeWhile_eq
  exact hStems p hp base hBase hStem

/-- The raw parameter is the identifier of the local that the request is bound to. -/
theorem not_keepsParameters_searchMethod :
    (searchMethod.parameters.map fun p => identifier p.name).Nodup ∧
      ¬KeepsParameters searchMethod ∧
      ∃ o ∈ Statement.listOccurrences [] (function searchMethod .noBody).body,
        o.name = "r#request" ∧ ¬o.IsFree := by
  refine ⟨by decide +kernel, ?_, by decide +kernel⟩
  intro h
  have hHidden : identifier "r#request" ∈ (Locals.ofMethod searchMethod).names.map identifier := by
    decide +kernel
  exact h.apart _ List.mem_cons_self hHidden

end MethodBody
end TraitClient
