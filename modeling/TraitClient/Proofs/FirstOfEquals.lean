import Mathlib.Data.List.Induction
import Mathlib.Data.List.Nodup

/-!
# The first of equals

A list that is built by adding what it does not hold yet keeps of equal elements the first one.
-/
namespace TraitClient

variable {α : Type} [BEq α] [LawfulBEq α]

theorem eraseDups_snoc_of_mem {as : List α} {a : α} (h : a ∈ as) :
    (as ++ [a]).eraseDups = as.eraseDups := by
  simp [List.eraseDups_append, List.removeAll, h]

theorem eraseDups_snoc_of_not_mem {as : List α} {a : α} (h : a ∉ as) :
    (as ++ [a]).eraseDups = as.eraseDups ++ [a] := by
  simp [List.eraseDups_append, List.removeAll, h, List.eraseDups_cons]

theorem nodup_eraseDups (as : List α) : as.eraseDups.Nodup := by
  induction as using List.reverseRecOn with
  | nil => simp
  | append_singleton as a ih =>
    by_cases hMem : a ∈ as
    · rw [eraseDups_snoc_of_mem hMem]
      exact ih
    · rw [eraseDups_snoc_of_not_mem hMem, ← List.concat_eq_append]
      exact ih.concat fun h => hMem (List.mem_eraseDups.mp h)

theorem find?_eraseDups (as : List α) (p : α → Bool) : as.eraseDups.find? p = as.find? p := by
  induction as using List.reverseRecOn with
  | nil => simp
  | append_singleton as a ih =>
    by_cases hMem : a ∈ as
    · rw [eraseDups_snoc_of_mem hMem, ih, List.find?_append]
      cases hFound : as.find? p with
      | some b => rfl
      | none => simpa using List.find?_eq_none.mp hFound a hMem
    · rw [eraseDups_snoc_of_not_mem hMem, List.find?_append, List.find?_append, ih]

theorem foldl_addNew (as : List α) :
    as.foldl (fun kept a => if kept.contains a then kept else kept ++ [a]) [] = as.eraseDups := by
  induction as using List.reverseRecOn with
  | nil => simp
  | append_singleton as a ih =>
    rw [List.foldl_append, List.foldl_cons, List.foldl_nil, ih]
    by_cases hMem : a ∈ as
    · rw [eraseDups_snoc_of_mem hMem, if_pos (by simpa using hMem)]
    · rw [eraseDups_snoc_of_not_mem hMem, if_neg (by simpa using hMem)]

end TraitClient
