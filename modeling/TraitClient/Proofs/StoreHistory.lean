import TraitClient.Proofs.FirstOfEquals
import TraitClient.Proofs.RepeatedRuns

/-!
# Stores as histories

What a store holds is told by the writes that made it.  The first write with a key decides where its
unit stands, and the last one what the unit contains; a write is answered by the one before it with
the same key.
-/
namespace TraitClient

namespace UnitStore

variable {u v : SourceUnit} {units writes : List SourceUnit} {s : UnitStore}

def after (writes : List SourceUnit) : UnitStore := writes.foldl (fun s u => (s.write u).1) empty

def last? (writes : List SourceUnit) (key : List String × String) : Option SourceUnit :=
  writes.reverse.find? (·.key == key)

theorem after_snoc (writes : List SourceUnit) (u : SourceUnit) :
    after (writes ++ [u]) = ((after writes).write u).1 := by
  rw [after, List.foldl_append]
  rfl

theorem last?_snoc (writes : List SourceUnit) (u : SourceUnit) (key : List String × String) :
    last? (writes ++ [u]) key = if u.key = key then some u else last? writes key := by
  rw [last?, List.reverse_append, List.reverse_singleton, List.singleton_append, List.find?_cons]
  by_cases hKey : u.key = key
  · simp [hKey]
  · rw [if_neg hKey, beq_eq_false_iff_ne.mpr hKey]
    rfl

theorem last?_eq_none_iff {key : List String × String} :
    last? writes key = none ↔ key ∉ writes.map SourceUnit.key := by
  simp [last?, List.find?_eq_none]

/-! ## Replacing a unit -/

theorem map_key_replace (h : u.key ∈ units.map SourceUnit.key) :
    (replace u units).map SourceUnit.key = units.map SourceUnit.key := by
  induction units with
  | nil => cases h
  | cons first rest ih =>
    by_cases hSame : first.key = u.key
    · rw [replace, if_pos (sameUnit_iff.mpr hSame), List.map_cons, List.map_cons, hSame]
    · have hRest : u.key ∈ rest.map SourceUnit.key :=
        (List.mem_cons.mp h).resolve_left (Ne.symm hSame)
      rw [replace, if_neg (hSame ∘ sameUnit_iff.mp), List.map_cons, List.map_cons, ih hRest]

theorem mem_replace (hDistinct : Distinct units) (h : v ∈ replace u units) :
    v = u ∨ v ∈ units ∧ v.key ≠ u.key := by
  induction units with
  | nil => exact .inl (List.mem_singleton.mp h)
  | cons first rest ih =>
    obtain ⟨hFirst, hRest⟩ := List.nodup_cons.mp hDistinct
    by_cases hSame : first.key = u.key
    · rw [replace, if_pos (sameUnit_iff.mpr hSame)] at h
      refine (List.mem_cons.mp h).imp_right fun hv => ⟨List.mem_cons_of_mem _ hv, ?_⟩
      exact fun hKey => hFirst (hSame ▸ hKey ▸ List.mem_map_of_mem hv)
    · rw [replace, if_neg (hSame ∘ sameUnit_iff.mp)] at h
      rcases List.mem_cons.mp h with rfl | hv
      · exact .inr ⟨List.mem_cons_self, hSame⟩
      · exact (ih hRest hv).imp_right fun hOld => ⟨List.mem_cons_of_mem _ hOld.1, hOld.2⟩

/-! ## One write -/

/-- A store that some writes have made has a unit for each key, in the order in which the keys came,
with the content that came last. -/
structure Recalls (writes : List SourceUnit) (s : UnitStore) : Prop where
  keys : s.units.map SourceUnit.key = (writes.map SourceUnit.key).eraseDups
  written : ∀ u ∈ s.units, u ∈ writes
  contents : ∀ u ∈ s.units, (last? writes u.key).map (·.content) = some u.content

theorem recalls_empty : Recalls [] empty := ⟨rfl, by simp [empty], by simp [empty]⟩

theorem Recalls.distinct (h : Recalls writes s) : Distinct s.units := by
  rw [Distinct, h.keys]
  exact nodup_eraseDups _

theorem Recalls.mem_keys (h : Recalls writes s) {key : List String × String} :
    key ∈ s.units.map SourceUnit.key ↔ key ∈ writes.map SourceUnit.key := by
  rw [h.keys, List.mem_eraseDups]

theorem Recalls.found (h : Recalls writes s) (u : SourceUnit) :
    (s.units.find? fun v => sameUnit v u).map (·.content) =
      (last? writes u.key).map (·.content) := by
  cases hFound : s.units.find? fun v => sameUnit v u with
  | some v =>
    have hSame : sameUnit v u = true := by simpa using List.find?_some hFound
    rw [← sameUnit_iff.mp hSame, h.contents v (List.mem_of_find?_eq_some hFound), Option.map_some]
  | none =>
    have hNew : u.key ∉ writes.map SourceUnit.key := by
      rw [← h.mem_keys, List.mem_map]
      rintro ⟨v, hv, hKey⟩
      exact List.find?_eq_none.mp hFound v hv (sameUnit_iff.mpr hKey)
    rw [last?_eq_none_iff.mpr hNew]

/-- How a write is answered that comes after some others. -/
def answer (writes : List SourceUnit) (u : SourceUnit) : WriteOutcome :=
  if (last? writes u.key).map (·.content) = some u.content then .unchanged u.relativePath
  else .written u.relativePath

theorem Recalls.write_eq (h : Recalls writes s) (u : SourceUnit) :
    s.write u = if (last? writes u.key).map (·.content) = some u.content then
      (s, .unchanged u.relativePath) else (⟨replace u s.units⟩, .written u.relativePath) := by
  rw [← h.found u, write]
  cases s.units.find? fun v => sameUnit v u with
  | none => simp
  | some v => simp

theorem Recalls.snd_write (h : Recalls writes s) (u : SourceUnit) :
    (s.write u).2 = answer writes u := by
  rw [h.write_eq u, answer]
  split <;> rfl

theorem Recalls.write (h : Recalls writes s) (u : SourceUnit) :
    Recalls (writes ++ [u]) (s.write u).1 := by
  -- A known key keeps its place, and a new one comes last.
  have hKeys : ((writes ++ [u]).map SourceUnit.key).eraseDups =
      if u.key ∈ s.units.map SourceUnit.key then s.units.map SourceUnit.key
      else s.units.map SourceUnit.key ++ [u.key] := by
    rw [List.map_append, List.map_singleton, h.keys]
    split
    · exact eraseDups_snoc_of_mem (List.mem_eraseDups.mp ‹_›)
    · exact eraseDups_snoc_of_not_mem fun hMem => ‹¬_› (List.mem_eraseDups.mpr hMem)
  rw [h.write_eq u]
  split
  · rename_i hSame
    have hOld : u.key ∈ s.units.map SourceUnit.key := by
      rw [h.mem_keys]
      by_contra hNew
      rw [last?_eq_none_iff.mpr hNew] at hSame
      cases hSame
    refine ⟨by rw [hKeys, if_pos hOld], fun v hv => List.mem_append_left _ (h.written v hv), ?_⟩
    intro v hv
    rw [last?_snoc]
    split
    · rename_i hKey
      rw [hKey] at hSame
      rw [← h.contents v hv, hSame, Option.map_some]
    · exact h.contents v hv
  · refine ⟨?_, fun v hv => ?_, fun v hv => ?_⟩
    · rw [hKeys]
      split
      · exact map_key_replace ‹_›
      · rename_i hNew
        rw [replace_of_new fun v hv hKey => hNew (hKey ▸ List.mem_map_of_mem hv), List.map_append]
        rfl
    · rcases mem_replace h.distinct hv with rfl | ⟨hOld, _⟩
      · simp
      · exact List.mem_append_left _ (h.written v hOld)
    · rw [last?_snoc]
      rcases mem_replace h.distinct hv with rfl | ⟨hOld, hKey⟩
      · simp
      · rw [if_neg (Ne.symm hKey), h.contents v hOld]

/-! ## All writes -/

theorem after_recalls (writes : List SourceUnit) : Recalls writes (after writes) := by
  induction writes using List.reverseRecOn with
  | nil => exact recalls_empty
  | append_singleton writes u ih =>
    rw [after_snoc]
    exact ih.write u

theorem Recalls.map_get? (h : Recalls writes s) (name : String) :
    (s.get? name).map SourceUnit.key = (writes.find? (·.name == name)).map SourceUnit.key := by
  have hByKey (units : List SourceUnit) : (units.find? (·.name == name)).map SourceUnit.key =
      (units.map SourceUnit.key).find? (·.2 == name) := by
    rw [List.find?_map]
    rfl
  rw [get?, hByKey, hByKey, h.keys, find?_eraseDups]

/-- A store in which the last write wins. -/
structure LastWriteWins (writes : List SourceUnit) (s : UnitStore) : Prop where
  recalls : Recalls writes s
  answers : ∀ u, (s.write u).2 = answer writes u
  held : ∀ name u, s.get? name = some u → u ∈ s.units
  first : ∀ name,
    (s.get? name).map SourceUnit.key = (writes.find? (·.name == name)).map SourceUnit.key

theorem after_lastWriteWins (writes : List SourceUnit) : LastWriteWins writes (after writes) where
  recalls := after_recalls writes
  answers := (after_recalls writes).snd_write
  held _ _ hFound := List.mem_of_find?_eq_some hFound
  first := (after_recalls writes).map_get?

end UnitStore
end TraitClient
