import TraitClient.Proofs.MethodRules

/-!
# The first broken rule

An interface is accepted exactly if each of its methods keeps all rules, else the first rule that
its first faulty method breaks is blamed.  A later rule may be decided only for methods that keep
the earlier ones, which is all that trying them in order needs.
-/
namespace TraitClient.Validation

/-- Results of rules that are tried in order, each of them right about its rule as long as the rules
before it are kept. -/
inductive Tried (kept : Rule → Prop) : List Rule → List (Option Fault) → Prop
  | done : Tried kept [] []
  | next {r : Rule} {rs : List Rule} {result : Option Fault} {results : List (Option Fault)} :
      Decides (kept r) r result → (kept r → Tried kept rs results) →
      Tried kept (r :: rs) (result :: results)

/-- All rules before this one are kept, and it is not. -/
def FirstBroken (kept : Rule → Prop) (rs : List Rule) (r : Rule) : Prop :=
  ∃ before after, rs = before ++ r :: after ∧ (∀ r' ∈ before, kept r') ∧ ¬kept r

theorem FirstBroken.congr {kept kept' : Rule → Prop} (hKept : ∀ r, kept r ↔ kept' r)
    {rs : List Rule} {r : Rule} (h : FirstBroken kept rs r) : FirstBroken kept' rs r := by
  obtain ⟨before, after, hRules, hBefore, hBroken⟩ := h
  exact ⟨before, after, hRules, fun r' hr' => (hKept r').mp (hBefore r' hr'),
    fun h => hBroken ((hKept r).mpr h)⟩

theorem Tried.eq_none_iff {kept : Rule → Prop} {rs : List Rule} {results : List (Option Fault)}
    (h : Tried kept rs results) : results.findSome? id = none ↔ ∀ r ∈ rs, kept r := by
  induction h with
  | done => simp
  | @next r rs result results hFirst _ ih =>
    rw [List.forall_mem_cons, ← hFirst.none_iff, List.findSome?_cons]
    cases result with
    | none => simpa using ih (hFirst.none_iff.mp rfl)
    | some fault => simp

theorem Tried.firstBroken {kept : Rule → Prop} {rs : List Rule} {results : List (Option Fault)}
    (h : Tried kept rs results) {fault : Fault} (hFault : results.findSome? id = some fault) :
    FirstBroken kept rs fault.rule := by
  induction h with
  | done => cases hFault
  | @next r rs result results hFirst _ ih =>
    rw [List.findSome?_cons] at hFault
    cases result with
    | none =>
      have hKept : kept r := hFirst.none_iff.mp rfl
      obtain ⟨before, after, rfl, hBefore, hBroken⟩ := ih hKept hFault
      exact ⟨r :: before, after, rfl, List.forall_mem_cons.mpr ⟨hKept, hBefore⟩, hBroken⟩
    | some found =>
      cases hFault
      have hRule : fault.rule = r := hFirst.rule_eq fault rfl
      subst hRule
      refine ⟨[], rs, rfl, by simp, fun hKept => ?_⟩
      have hNone := hFirst.none_iff.mpr hKept
      cases hNone

/-- The multipart rule is the one that relies on another: it looks at one body. -/
theorem rules_tried (types : RuntimeTypes) (m : Method) :
    Tried (Kept types ReadsAsString m) ruleOrder ((rules types).map fun rule => rule m) :=
  .next (pathPlaceholders_decides m) fun _ =>
  .next (bodyCardinality_decides m) fun hOne =>
  .next (bodyVerb_decides m) fun _ =>
  .next (bodyFieldExclusive_decides m) fun _ =>
  .next (multipartShape_decides types m hOne) fun _ =>
  .next (formShape_decides m) fun _ =>
  .next (fieldMapType_decides m) fun _ =>
  .next (signature_decides m) fun _ =>
  .next (textResponse_decides m) fun _ => .done

theorem fault?_eq_findSome? (types : RuntimeTypes) (m : Method) :
    fault? types m = ((rules types).map fun rule => rule m).findSome? id := by
  rw [List.findSome?_map]
  rfl

theorem fault?_eq_none_iff {types : RuntimeTypes} {m : Method} :
    fault? types m = none ↔ ∀ r ∈ ruleOrder, Kept types ReadsAsString m r := by
  rw [fault?_eq_findSome?]
  exact (rules_tried types m).eq_none_iff

theorem fault?_firstBroken {types : RuntimeTypes} {m : Method} {fault : Fault}
    (h : fault? types m = some fault) :
    FirstBroken (Kept types ReadsAsString m) ruleOrder fault.rule := by
  rw [fault?_eq_findSome?] at h
  exact (rules_tried types m).firstBroken h

def Valid (types : RuntimeTypes) (string : TypeRef → Prop) (m : Method) : Prop :=
  ∀ r ∈ ruleOrder, Kept types string m r

/-- The violation is the first broken rule of the first method that breaks one. -/
structure Blames (types : RuntimeTypes) (string : TypeRef → Prop) (i : Interface)
    (v : Violation) : Prop where
  interface : v.interface = i.name
  method : ∃ before m after, i.methods = before ++ m :: after ∧
    (∀ m' ∈ before, Valid types string m') ∧ v.method = m.name ∧
    FirstBroken (Kept types string m) ruleOrder v.fault.rule

/-- A verdict on an interface, where no violation is acceptance, given what counts as `String`. -/
structure RightVerdict (types : RuntimeTypes) (string : TypeRef → Prop) (i : Interface)
    (verdict : Option Violation) : Prop where
  accepts_iff : verdict = none ↔ ∀ m ∈ i.methods, Valid types string m
  blames : ∀ v, verdict = some v → Blames types string i v

theorem violation?_right (types : RuntimeTypes) (i : Interface) :
    RightVerdict types ReadsAsString i (violation? types i) where
  accepts_iff := by
    simp only [violation?, List.findSome?_eq_none_iff, Option.map_eq_none_iff, fault?_eq_none_iff,
      Valid]
  blames v h := by
    obtain ⟨before, m, after, hMethods, hFound, hBefore⟩ := List.findSome?_eq_some_iff.mp h
    obtain ⟨fault, hFault, rfl⟩ := Option.map_eq_some_iff.mp hFound
    refine ⟨rfl, before, m, after, hMethods, fun m' hm' => ?_, rfl, fault?_firstBroken hFault⟩
    exact fault?_eq_none_iff.mp (Option.map_eq_none_iff.mp (hBefore m' hm'))

/-! ## Strings by name and by spelling -/

/-- Where a text response is asked for, `str` is written for `str` and for nothing else. -/
def SuccessPlainlySpelled (m : Method) : Prop :=
  m.modifiers.textResponse = true → ∀ success, ResultOf m.returnType success →
    PlainlySpelled success

theorem kept_readsAsString_iff {types : RuntimeTypes} {m : Method}
    (h : SuccessPlainlySpelled m) (r : Rule) :
    Kept types ReadsAsString m r ↔ Kept types IsString m r := by
  cases r with
  | textResponse =>
    change TextFits ReadsAsString m ↔ TextFits IsString m
    have hString (hText : m.modifiers.textResponse = true) (success : TypeRef)
        (hResult : ResultOf m.returnType success) : ReadsAsString success ↔ IsString success :=
      (readsAsString_iff_isString success).mpr (h hText success hResult)
    constructor
    · intro hFits hText
      obtain ⟨success, hResult, hNullable, hReads⟩ := hFits hText
      exact ⟨success, hResult, hNullable, (hString hText success hResult).mp hReads⟩
    · intro hFits hText
      obtain ⟨success, hResult, hNullable, hIs⟩ := hFits hText
      exact ⟨success, hResult, hNullable, (hString hText success hResult).mpr hIs⟩
  | _ => rfl

theorem RightVerdict.of_plainlySpelled {types : RuntimeTypes} {i : Interface}
    {verdict : Option Violation} (h : RightVerdict types ReadsAsString i verdict)
    (hPlain : ∀ m ∈ i.methods, SuccessPlainlySpelled m) :
    RightVerdict types IsString i verdict where
  accepts_iff := by
    rw [h.accepts_iff]
    constructor
    · exact fun hValid m hm r hr => (kept_readsAsString_iff (hPlain m hm) r).mp (hValid m hm r hr)
    · exact fun hValid m hm r hr => (kept_readsAsString_iff (hPlain m hm) r).mpr (hValid m hm r hr)
  blames v hv := by
    obtain ⟨hName, before, m, after, hMethods, hBefore, hMethod, hBroken⟩ := h.blames v hv
    have hPlainSplit : ∀ m' ∈ before ++ m :: after, SuccessPlainlySpelled m' := hMethods ▸ hPlain
    refine ⟨hName, before, m, after, hMethods, fun m' hm' r hr => ?_, hMethod, ?_⟩
    · exact (kept_readsAsString_iff (hPlainSplit m' (List.mem_append_left _ hm')) r).mp
        (hBefore m' hm' r hr)
    · exact hBroken.congr (kept_readsAsString_iff (hPlainSplit m (by simp)))

/-- The verdict follows the rules, with `String` told from `str` by the spelling of the type.  It
follows them with `String` told by its name for interfaces that spell the two plainly, and spelling
them plainly is what it takes for the two readings of a type to agree. -/
theorem violation?_exact (types : RuntimeTypes) (i : Interface) :
    RightVerdict types ReadsAsString i (violation? types i) ∧
      ((∀ m ∈ i.methods, SuccessPlainlySpelled m) →
        RightVerdict types IsString i (violation? types i)) ∧
      ∀ t, (ReadsAsString t ↔ IsString t) ↔ PlainlySpelled t :=
  ⟨violation?_right types i, (violation?_right types i).of_plainlySpelled,
    readsAsString_iff_isString⟩

/-- A method whose response is text, with that success type. -/
def readmeMethod (success : TypeRef) : Method where
  name := "readme"
  declaredIn := "DocsApi"
  verb := .get
  template := "/readme"
  parameters := []
  returnType :=
    { TypeRef.named "std::result::Result" "Result" with
      arguments := [success, .named "ApiError" "ApiError"] }
  modifiers := { textResponse := true }
  signature := ⟨true, true, false⟩

/-- A `String` that is imported under the name `str` is refused as a text response, although it
keeps the rule by its name. -/
theorem not_rightVerdict_isString :
    ¬∀ (types : RuntimeTypes) (i : Interface),
      RightVerdict types IsString i (violation? types i) := by
  intro h
  let types := RuntimeTypes.ofPath "crate::runtime"
  let m := readmeMethod (.named "std::string::String" "str")
  let i : Interface := ⟨["docs"], "DocsApi", .everywhere, "src/docs.rs", [m], []⟩
  have hValid : Valid types IsString m := by
    intro r _
    cases r with
    | annotationShape => trivial
    | pathPlaceholders => exact (pathPlaceholders_decides m).none_iff.mp (by decide +kernel)
    | bodyCardinality => exact (bodyCardinality_decides m).none_iff.mp (by decide +kernel)
    | bodyVerb => exact (bodyVerb_decides m).none_iff.mp (by decide +kernel)
    | bodyFieldExclusive => exact (bodyFieldExclusive_decides m).none_iff.mp (by decide +kernel)
    | multipartShape =>
      exact (multipartShape_decides types m .nil).none_iff.mp (by decide +kernel)
    | formShape => exact (formShape_decides m).none_iff.mp (by decide +kernel)
    | fieldMapType => exact (fieldMapType_decides m).none_iff.mp (by decide +kernel)
    | signature => exact (signature_decides m).none_iff.mp (by decide +kernel)
    | textResponse =>
      intro _
      exact ⟨.named "std::string::String" "str", ⟨by decide, rfl, rfl⟩, rfl, Or.inl rfl⟩
  have hAccepted : violation? types i = none :=
    (h types i).accepts_iff.mpr fun m' hm' => List.mem_singleton.mp hm' ▸ hValid
  have hRefused : (violation? types i).isNone = false := by decide +kernel
  rw [hAccepted] at hRefused
  cases hRefused

end TraitClient.Validation
