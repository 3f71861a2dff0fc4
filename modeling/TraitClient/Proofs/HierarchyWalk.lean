import Mathlib.Data.List.Nodup
import TraitClient.Extraction.Hierarchy
import TraitClient.Proofs.DepthFirst
import TraitClient.Proofs.LoggedLaws

/-!
# The walk of a hierarchy

The supertraits of a trait form a graph by the bounds that name scanned traits.  Collecting methods
is taking these traits one after the other in depth first order, and the fuel of the walk is never
used up: each level takes a trait that has not been taken.
-/
namespace TraitClient

theorem find?_of_distinct {α κ : Type} {key : α → κ} {as : List α} (h : (as.map key).Nodup)
    {p : α → Bool} {a : α} (hp : ∀ b ∈ as, p b = true ↔ key b = key a) (ha : a ∈ as) :
    as.find? p = some a := by
  cases hFound : as.find? p with
  | none => exact absurd ((hp a ha).mpr rfl) (List.find?_eq_none.mp hFound a ha)
  | some b =>
    have hb := List.mem_of_find?_eq_some hFound
    have hSame : key b = key a := (hp b hb).mp (List.find?_some hFound)
    exact congrArg some (List.inj_on_of_nodup_map h hb ha hSame)

namespace Extraction

open DepthFirst (Reaches Left)

variable {c : Context} {index : TraitIndex} {interface : String}

def parents (index : TraitIndex) (e : TraitEntry) : List TraitEntry :=
  e.declaration.bounds.filterMap (supertrait? index e)

theorem supertrait?_mem {e parent : TraitEntry} {bound : Source.PlainPath}
    (h : supertrait? index e bound = some parent) : parent ∈ index.traits := by
  unfold supertrait? at h
  split at h
  · cases h
  · obtain ⟨candidate, _, hFind⟩ := List.exists_of_findSome?_eq_some h
    exact List.mem_of_find?_eq_some hFind

theorem parents_mem {e parent : TraitEntry} (h : parent ∈ parents index e) :
    parent ∈ index.traits := by
  obtain ⟨bound, _, hBound⟩ := List.mem_filterMap.mp h
  exact supertrait?_mem hBound

theorem reaches_mem {e t : TraitEntry} (he : e ∈ index.traits)
    (h : Reaches (parents index) e t) : t ∈ index.traits := by
  induction h with
  | refl => exact he
  | tail _ hStep _ => exact parents_mem hStep

/-! ## One trait -/

/-- Takes one trait without its supertraits.  The first trait of all is the service itself. -/
def takeTrait (c : Context) (interface : String) (found : Collected) (e : TraitEntry) :
    Walk Collected := do
  let inherited := !found.visited.isEmpty
  let declaredIn := if inherited then e.cratePath else e.declaration.name
  let methods ← ownMethods c interface e inherited declaredIn e.declaration.functions found.methods
  pure
    { methods
      visited := found.visited ++ [e.cratePath]
      supertraits :=
        if inherited then found.supertraits ++ [e.cratePath] else found.supertraits }

theorem visitBounds_eq_foldlM (e : TraitEntry) (visit : TraitEntry → Collected → Walk Collected)
    (bounds : List Source.PlainPath) (found : Collected) :
    visitBounds index e visit bounds found =
      (bounds.filterMap (supertrait? index e)).foldlM (fun found t => visit t found) found := by
  induction bounds generalizing found with
  | nil => rfl
  | cons bound rest ih =>
    rw [visitBounds, List.filterMap_cons]
    cases supertrait? index e bound with
    | none =>
      change pure found >>= visitBounds index e visit rest = _
      rw [Logged.pure_bind, ih]
    | some parent =>
      rw [List.foldlM_cons]
      exact Logged.bind_congr_result fun found' _ => ih found'

theorem collect_of_visited {e : TraitEntry} {found : Collected}
    (h : e.cratePath ∈ found.visited) (fuel : Nat) :
    collect c interface fuel e found = pure found := by
  cases fuel with
  | zero => rfl
  | succ fuel =>
    rw [collect]
    exact if_pos (List.contains_iff_mem.mpr h)

theorem collect_of_new {e : TraitEntry} {found : Collected}
    (h : e.cratePath ∉ found.visited) (fuel : Nat) :
    collect c interface (fuel + 1) e found = takeTrait c interface found e >>= fun found =>
      (parents c.index e).foldlM (fun found t => collect c interface fuel t found) found := by
  rw [collect, takeTrait, Logged.bind_assoc]
  simp only [List.contains_iff_mem, h, if_false]
  refine Logged.bind_congr_result fun methods _ => ?_
  rw [Logged.pure_bind, visitBounds_eq_foldlM]
  rfl

theorem takeTrait_visited {e : TraitEntry} {found found' : Collected}
    (h : (takeTrait c interface found e).result = .ok found') :
    found'.visited = found.visited ++ [e.cratePath] := by
  obtain ⟨methods, _, hTaken⟩ := Logged.bind_result_eq_ok h
  cases hTaken
  rfl

theorem takeAll_visited {order : List TraitEntry} {found found' : Collected}
    (h : (order.foldlM (takeTrait c interface) found).result = .ok found') :
    found'.visited = found.visited ++ order.map (·.cratePath) := by
  induction order generalizing found with
  | nil =>
    cases h
    simp
  | cons e order ih =>
    rw [List.foldlM_cons] at h
    obtain ⟨next, hTake, hRest⟩ := Logged.bind_result_eq_ok h
    rw [ih hRest, takeTrait_visited hTake, List.append_assoc]
    rfl

/-! ## The whole walk -/

/-- With enough fuel a walk is a fold over the traits in depth first order, log included.  Crate
paths tell the traits of the index apart, so that visited paths are taken traits. -/
theorem foldlM_collect_eq (interface : String)
    (hDistinct : (c.index.traits.map (·.cratePath)).Nodup)
    {seen todo order : List TraitEntry} (h : DepthFirst.Walk (parents c.index) seen todo order) :
    ∀ (fuel : Nat) (found : Collected), found.visited = seen.map (·.cratePath) →
      (∀ t ∈ seen, t ∈ c.index.traits) → (∀ t ∈ todo, t ∈ c.index.traits) →
      Left c.index.traits seen fuel →
      todo.foldlM (fun found t => collect c interface fuel t found) found =
        order.foldlM (takeTrait c interface) found := by
  induction h with
  | done => exact fun _ _ _ _ _ _ => rfl
  | @skip seen rest order a hSeen _ ih =>
    intro fuel found hVisited hSeenIndex hTodo hLeft
    have hPath : a.cratePath ∈ found.visited := hVisited ▸ List.mem_map_of_mem hSeen
    rw [List.foldlM_cons, collect_of_visited hPath, Logged.pure_bind]
    exact ih fuel found hVisited hSeenIndex (List.forall_mem_cons.mp hTodo).2 hLeft
  | @take seen rest below order a hNew hBelow hRest ihBelow ihRest =>
    intro fuel found hVisited hSeenIndex hTodo hLeft
    obtain ⟨ha, hRestIndex⟩ := List.forall_mem_cons.mp hTodo
    -- A visited path is that of a seen trait, which would be `a` itself.
    have hPath : a.cratePath ∉ found.visited := by
      rw [hVisited, List.mem_map]
      rintro ⟨t, ht, hEq⟩
      exact hNew (List.inj_on_of_nodup_map hDistinct (hSeenIndex t ht) ha hEq ▸ ht)
    have hParents : ∀ t ∈ parents c.index a, t ∈ c.index.traits := fun t ht => parents_mem ht
    have hSeenBelow : ∀ t ∈ seen ++ [a], t ∈ c.index.traits := by
      intro t ht
      rcases List.mem_append.mp ht with ht | ht
      · exact hSeenIndex t ht
      · rwa [List.mem_singleton.mp ht]
    have hSeenRest : ∀ t ∈ seen ++ a :: below, t ∈ c.index.traits := by
      intro t ht
      rcases List.mem_append.mp ht with ht | ht
      · exact hSeenIndex t ht
      · rcases List.mem_cons.mp ht with rfl | ht
        · exact ha
        · obtain ⟨parent, hParent, hReach⟩ := hBelow.reaches t ht
          exact reaches_mem (hParents parent hParent) hReach
    obtain ⟨k, rfl, hLeftBelow⟩ := hLeft.take ha hNew
    rw [List.foldlM_cons, collect_of_new hPath, Logged.bind_assoc, List.cons_append,
      List.foldlM_cons]
    refine Logged.bind_congr_result fun taken hTaken => ?_
    have hTakenVisited : taken.visited = (seen ++ [a]).map (·.cratePath) := by
      rw [takeTrait_visited hTaken, hVisited, List.map_append]
      rfl
    rw [ihBelow k taken hTakenVisited hSeenBelow hParents hLeftBelow, List.foldlM_append]
    refine Logged.bind_congr_result fun found' hFound' => ?_
    -- The rest goes on with the fuel of this level, not with what the levels below had.
    have hFoundVisited : found'.visited = (seen ++ a :: below).map (·.cratePath) := by
      rw [takeAll_visited hFound', hTakenVisited]
      simp
    exact ihRest (k + 1) found' hFoundVisited hSeenRest hRestIndex
      (hLeft.mono (fun t ht => List.mem_append_left _ ht) (Nat.le_refl _))

end Extraction
end TraitClient
