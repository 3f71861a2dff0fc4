import Mathlib.Data.List.Nodup
import Mathlib.Data.List.Perm.Subperm
import TraitClient.Emission.LocalNames
import TraitClient.Proofs.CodeRuns

/-!
# Locals apart from parameters

Names that are given one after the other differ from each other and from all that were taken.  They
are compared as they are spelled: a raw parameter and the local of the same identifier are two names
here and one in the code.
-/
namespace TraitClient

namespace LocalNames

def underscored (base : String) (count : Nat) : String :=
  base ++ String.ofList (List.replicate count '_')

theorem toList_underscored (base : String) (count : Nat) :
    (underscored base count).toList = base.toList ++ List.replicate count '_' := by
  rw [underscored, String.toList_append, String.toList_ofList]

theorem underscored_zero (base : String) : underscored base 0 = base := by
  simp [underscored]

theorem underscored_append (base : String) (count : Nat) :
    underscored (base ++ "_") count = underscored base (count + 1) := by
  simp [underscored, ← String.toList_inj, List.replicate_succ]

theorem underscored_injective (base : String) : Function.Injective (underscored base) := by
  intro j k hEq
  have hLength := congrArg String.length hEq
  simpa [underscored] using hLength

/-- The first name with underscores that is not taken. -/
structure FreshFor (taken : List String) (base name : String) : Prop where
  notTaken : name ∉ taken
  first : ∃ count, name = underscored base count ∧ ∀ j < count, underscored base j ∈ taken

theorem freshFrom_result (taken : List String) (fuel : Nat) (base : String) :
    FreshFor taken base (freshFrom taken fuel base) ∨ ∀ j < fuel, underscored base j ∈ taken := by
  induction fuel generalizing base with
  | zero => exact .inr fun j hj => absurd hj (Nat.not_lt_zero j)
  | succ fuel ih =>
    rw [freshFrom]
    split
    · rename_i hTaken
      have hBase : underscored base 0 ∈ taken := by
        rw [underscored_zero]
        exact List.contains_iff_mem.mp hTaken
      rcases ih (base ++ "_") with hFresh | hAll
      · obtain ⟨count, hName, hBefore⟩ := hFresh.first
        refine .inl ⟨hFresh.notTaken, count + 1, hName.trans (underscored_append base count), ?_⟩
        rintro (_ | j) hj
        · exact hBase
        · exact underscored_append base j ▸ hBefore j (Nat.lt_of_succ_lt_succ hj)
      · refine .inr ?_
        rintro (_ | j) hj
        · exact hBase
        · exact underscored_append base j ▸ hAll j (Nat.lt_of_succ_lt_succ hj)
    · rename_i hFree
      refine .inl ⟨fun hMem => hFree (List.contains_iff_mem.mpr hMem), 0, ?_, ?_⟩
      · exact (underscored_zero base).symm
      · exact fun j hj => absurd hj (Nat.not_lt_zero j)

/-- Names with different numbers of underscores are different, so that no more of them are taken
than there are taken names. -/
theorem le_length_of_underscored {taken : List String} {base : String} {count : Nat}
    (h : ∀ j < count, underscored base j ∈ taken) : count ≤ taken.length := by
  have hNodup : ((List.range count).map (underscored base)).Nodup :=
    (List.nodup_map_iff (underscored_injective base)).mpr List.nodup_range
  have hSubset : (List.range count).map (underscored base) ⊆ taken := by
    intro name hName
    obtain ⟨j, hj, rfl⟩ := List.mem_map.mp hName
    exact h j (List.mem_range.mp hj)
  have hLength := (hNodup.subperm hSubset).length_le
  rwa [List.length_map, List.length_range] at hLength

/-- One name more than is taken is tried, so that one of them is free. -/
theorem fresh_freshFor (taken : List String) (base : String) :
    FreshFor taken base (fresh taken base) :=
  (freshFrom_result taken (taken.length + 1) base).resolve_right fun hAll =>
    Nat.not_succ_le_self _ (le_length_of_underscored hAll)

theorem freshAll_nodup (taken bases : List String) :
    (freshAll taken bases).Nodup ∧ ∀ name ∈ freshAll taken bases, name ∉ taken := by
  induction bases generalizing taken with
  | nil => exact ⟨List.nodup_nil, fun name hName => absurd hName List.not_mem_nil⟩
  | cons base bases ih =>
    obtain ⟨hNodup, hApart⟩ := ih (fresh taken base :: taken)
    rw [freshAll]
    constructor
    · exact List.nodup_cons.mpr ⟨fun hMem => hApart _ hMem List.mem_cons_self, hNodup⟩
    · intro name hName hTaken
      rcases List.mem_cons.mp hName with rfl | hName
      · exact (fresh_freshFor taken base).notTaken hTaken
      · exact hApart name hName (List.mem_cons_of_mem _ hTaken)

theorem freshAll_underscored {taken bases : List String} {name : String}
    (hName : name ∈ freshAll taken bases) : ∃ base ∈ bases, ∃ count, name = underscored base count := by
  induction bases generalizing taken with
  | nil => exact absurd hName List.not_mem_nil
  | cons base bases ih =>
    rw [freshAll] at hName
    rcases List.mem_cons.mp hName with rfl | hName
    · obtain ⟨count, hShape, _⟩ := (fresh_freshFor taken base).first
      exact ⟨base, List.mem_cons_self, count, hShape⟩
    · obtain ⟨base', hBase, hShape⟩ := ih hName
      exact ⟨base', List.mem_cons_of_mem _ hBase, hShape⟩

end LocalNames

namespace Locals

open LocalNames (underscored freshAll)
open Code (identifier)

def names (l : Locals) : List String :=
  [l.client, l.url, l.request, l.response, l.value, l.fields, l.form, l.part]

/-- Locals that are bound while parameters are still read. -/
def lasting (l : Locals) : List String := [l.client, l.url, l.request, l.fields, l.form]

theorem names_ofMethod (m : Method) :
    (ofMethod m).names = freshAll (m.parameters.map (·.name)) bases := by
  unfold ofMethod
  split
  · rename_i hNames
    exact hNames.symm
  · rename_i hNone
    exact absurd rfl (hNone _ _ _ _ _ _ _ _)

theorem names_nodup (m : Method) : (ofMethod m).names.Nodup :=
  names_ofMethod m ▸ (LocalNames.freshAll_nodup _ _).1

theorem not_mem_names {m : Method} {p : Parameter} (hp : p ∈ m.parameters) :
    p.name ∉ (ofMethod m).names := fun hName =>
  (LocalNames.freshAll_nodup _ _).2 _ (names_ofMethod m ▸ hName) (List.mem_map_of_mem hp)

theorem identifier_underscored {base : String} (hBase : base ∈ bases) (count : Nat) :
    identifier (underscored base count) = underscored base count := by
  simp only [bases, List.mem_cons, List.not_mem_nil, or_false] at hBase
  rcases hBase with rfl | rfl | rfl | rfl | rfl | rfl | rfl | rfl <;>
    simp [identifier, underscored]

theorem identifier_of_mem_names {m : Method} {name : String} (hName : name ∈ (ofMethod m).names) :
    identifier name = name := by
  rw [names_ofMethod] at hName
  obtain ⟨base, hBase, count, rfl⟩ := LocalNames.freshAll_underscored hName
  exact identifier_underscored hBase count

structure Plain (l : Locals) : Prop where
  client : identifier l.client = l.client
  url : identifier l.url = l.url
  request : identifier l.request = l.request
  response : identifier l.response = l.response
  value : identifier l.value = l.value
  fields : identifier l.fields = l.fields
  form : identifier l.form = l.form
  part : identifier l.part = l.part

theorem plain_ofMethod (m : Method) : Plain (ofMethod m) := by
  constructor <;> exact identifier_of_mem_names (m := m) (by simp [names])

/-- The locals that are in scope together. -/
structure Apart (l : Locals) : Prop where
  client_url : l.client ≠ l.url
  value_request : l.value ≠ l.request
  value_fields : l.value ≠ l.fields
  value_form : l.value ≠ l.form
  part_form : l.part ≠ l.form
  fields_request : l.fields ≠ l.request
  form_request : l.form ≠ l.request

theorem apart_ofMethod (m : Method) : Apart (ofMethod m) := by
  have hNodup := names_nodup m
  simp only [names, List.nodup_cons, List.mem_cons, List.not_mem_nil, or_false, not_or] at hNodup
  obtain ⟨hClient, -, hRequest, -, hValue, -, hForm, -⟩ := hNodup
  constructor
  · exact hClient.1
  · exact Ne.symm hRequest.2.1
  · exact hValue.1
  · exact hValue.2.1
  · exact Ne.symm hForm
  · exact Ne.symm hRequest.2.2.1
  · exact Ne.symm hRequest.2.2.2.1

/-- No parameter is the raw form of a local that it would be read below. -/
def Unshadowed (m : Method) : Prop :=
  ∀ p ∈ m.parameters, identifier p.name ∉ (ofMethod m).lasting

instance (m : Method) : Decidable (Unshadowed m) :=
  inferInstanceAs (Decidable (∀ p ∈ m.parameters, _))

theorem lasting_subset (l : Locals) : l.lasting ⊆ l.names := by
  simp [lasting, names]

theorem unshadowed_of_not_raw {m : Method} (h : ∀ p ∈ m.parameters, identifier p.name = p.name) :
    Unshadowed m := fun p hp hLasting =>
  not_mem_names hp (h p hp ▸ lasting_subset _ hLasting)

end Locals
end TraitClient
