import Mathlib.Data.Finset.Card
import Mathlib.Logic.Relation
import Mathlib.Order.Bounds.Basic
import TraitClient.Proofs.Identifiers

/-!
# Fewest underscores

A base gets one more underscore as long as its name is taken.  Finitely many names are taken, so
that this ends from every name, and it ends with the free name that has the fewest underscores.  A
name that has been given counts as taken from then on, whatever base it was given for.
-/
namespace TraitClient.LocalNames

open Code (Word)

/-! ## The search for one name -/

/-- A name that is taken gets one more underscore. -/
def Lengthens (taken : Finset String) (name next : String) : Prop :=
  name ∈ taken ∧ next = name ++ "_"

/-- The taken names that a search can still meet, which are not shorter than the name it is at. -/
def ahead (taken : Finset String) (name : String) : Finset String :=
  taken.filter fun other => name.length ≤ other.length

variable {taken : Finset String} {base name next : String}

theorem ahead_ssubset (h : Lengthens taken name next) : ahead taken next ⊂ ahead taken name := by
  obtain ⟨hTaken, rfl⟩ := h
  have hLonger : (name ++ "_").length = name.length + 1 := String.length_append name "_"
  refine (Finset.ssubset_iff_of_subset ?_).mpr ⟨name, ?_, ?_⟩
  · intro other hOther
    obtain ⟨hMem, hLength⟩ := Finset.mem_filter.mp hOther
    exact Finset.mem_filter.mpr ⟨hMem, by omega⟩
  · exact Finset.mem_filter.mpr ⟨hTaken, le_rfl⟩
  · intro hMem
    have hLength := (Finset.mem_filter.mp hMem).2
    omega

/-- Each turn leaves the name behind that it found taken. -/
theorem lengthens_wellFounded (taken : Finset String) :
    WellFounded fun next name => Lengthens taken name next :=
  Subrelation.wf (fun h => Finset.card_lt_card (ahead_ssubset h))
    (measure fun name => (ahead taken name).card).wf

/-- What the search from a base ends with. -/
structure SettlesOn (taken : Finset String) (base name : String) : Prop where
  reached : Relation.ReflTransGen (Lengthens taken) base name
  stopped : ∀ next, ¬Lengthens taken name next
  /-- No name is met twice, so that there are no more underscores than taken names. -/
  fewest : ∃ count ≤ taken.card, name = underscored base count ∧
    IsLeast {k | underscored base k ∉ taken} count

theorem reaches_underscored {count : Nat} (h : ∀ j < count, underscored base j ∈ taken) :
    Relation.ReflTransGen (Lengthens taken) base (underscored base count) := by
  induction count generalizing base with
  | zero => rw [underscored_zero]
  | succ count ih =>
    have hBase : base ∈ taken := underscored_zero base ▸ h 0 (Nat.succ_pos count)
    rw [← underscored_append]
    refine .head ⟨hBase, rfl⟩ (ih fun j hj => ?_)
    rw [underscored_append]
    exact h (j + 1) (Nat.succ_lt_succ hj)

theorem FreshFor.settlesOn {taken : List String} (h : FreshFor taken base name) :
    SettlesOn taken.toFinset base name := by
  obtain ⟨count, rfl, hFirst⟩ := h.first
  have hBefore : ∀ j < count, underscored base j ∈ taken.toFinset :=
    fun j hj => List.mem_toFinset.mpr (hFirst j hj)
  have hFree : underscored base count ∉ taken.toFinset :=
    fun hMem => h.notTaken (List.mem_toFinset.mp hMem)
  have hTurns : count ≤ taken.toFinset.card := by
    rw [← Finset.length_toList]
    exact le_length_of_underscored fun j hj => Finset.mem_toList.mpr (hBefore j hj)
  refine ⟨reaches_underscored hBefore, fun next hNext => hFree hNext.1, count, hTurns, rfl, hFree,
    fun k hk => ?_⟩
  exact Nat.le_of_not_lt fun hLess => hk (hBefore k hLess)

/-! ## One call after the other -/

/-- Names for bases, where a call knows the parameters and the names of the calls before it. -/
structure CallsSettle (parameters bases names : List String) : Prop where
  answered : names.length = bases.length
  settled : ∀ (i : Nat) (hBase : i < bases.length) (hName : i < names.length),
    SettlesOn (parameters ++ names.take i).toFinset bases[i] names[i]

theorem CallsSettle.cons {parameters bases names : List String}
    (hFirst : SettlesOn parameters.toFinset base name)
    (hRest : CallsSettle (name :: parameters) bases names) :
    CallsSettle parameters (base :: bases) (name :: names) := by
  refine ⟨congrArg Nat.succ hRest.answered, fun i hBase hName => ?_⟩
  cases i with
  | zero => simpa using hFirst
  | succ i =>
    have hKnown : (parameters ++ (name :: names).take (i + 1)).toFinset =
        (name :: parameters ++ names.take i).toFinset := by
      ext other
      simp only [List.mem_toFinset, List.mem_append, List.mem_cons, List.take_succ_cons]
      tauto
    rw [hKnown]
    exact hRest.settled i (Nat.lt_of_succ_lt_succ hBase) (Nat.lt_of_succ_lt_succ hName)

theorem freshAll_callsSettle (parameters bases : List String) :
    CallsSettle parameters bases (freshAll parameters bases) := by
  induction bases generalizing parameters with
  | nil => exact ⟨rfl, fun i hBase => absurd hBase (Nat.not_lt_zero i)⟩
  | cons base bases ih =>
    rw [freshAll]
    exact .cons (fresh_freshFor parameters base).settlesOn (ih _)

/-! ## Identifiers -/

theorem firstBad?_freshAll {bases : List String}
    (h : ∀ base ∈ bases, (Word.ident base).isToken = true) (parameters : List String) :
    Code.firstBad? ((freshAll parameters bases).map .ident) = none := by
  refine List.find?_eq_none.mpr fun word hWord => ?_
  obtain ⟨name, hName, rfl⟩ := List.mem_map.mp hWord
  obtain ⟨base, hBase, count, rfl⟩ := freshAll_underscored hName
  simp [underscored_isToken (h base hBase) count]

/-- Every search ends, whatever is taken, each call gives its base with the fewest underscores that
keep it apart from the parameters and from what was given before, and a base that is an identifier
is given as one. -/
theorem freshAll_fewest (parameters bases : List String) :
    (∀ taken, WellFounded fun next name => Lengthens taken name next) ∧
      CallsSettle parameters bases (freshAll parameters bases) ∧
      ((∀ base ∈ bases, (Word.ident base).isToken = true) →
        Code.firstBad? ((freshAll parameters bases).map .ident) = none) :=
  ⟨lengthens_wellFounded, freshAll_callsSettle parameters bases,
    fun h => firstBad?_freshAll h parameters⟩

/-- Bases that are underscored forms of each other, and of a parameter. -/
theorem nestedBases_fewest :
    freshAll ["request", "request_"] ["request", "request_", "r#type", "r#type", "request"] =
        ["request__", "request___", "r#type", "r#type_", "request____"] ∧
      (∀ base ∈ ["request", "request_", "r#type", "r#type", "request"],
        (Word.ident base).isToken = true) ∧
      CallsSettle ["request", "request_"] ["request", "request_", "r#type", "r#type", "request"]
        ["request__", "request___", "r#type", "r#type_", "request____"] ∧
      Code.firstBad? ((freshAll ["request", "request_"]
        ["request", "request_", "r#type", "r#type", "request"]).map .ident) = none := by
  have hNames : freshAll ["request", "request_"]
      ["request", "request_", "r#type", "r#type", "request"] =
        ["request__", "request___", "r#type", "r#type_", "request____"] := by decide
  have hBases : ∀ base ∈ ["request", "request_", "r#type", "r#type", "request"],
      (Word.ident base).isToken = true := by decide
  obtain ⟨-, hSettle, hWritten⟩ := freshAll_fewest ["request", "request_"]
    ["request", "request_", "r#type", "r#type", "request"]
  exact ⟨hNames, hBases, hNames ▸ hSettle, hWritten hBases⟩

end TraitClient.LocalNames
