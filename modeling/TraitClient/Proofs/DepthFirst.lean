import Mathlib.Logic.Relation
import Mathlib.Tactic.ByContra

/-!
# Depth first order

The order in which a walk of a graph comes to its nodes: each before what lies below it, and none
twice.  The graph may have cycles; a walk of finitely many nodes ends, and takes what is reachable.
-/
namespace TraitClient.DepthFirst

variable {α : Type} {next : α → List α}

/-- The nodes that a walk takes, in order, when it visits those of a list from left to right and has
taken others already. -/
inductive Walk (next : α → List α) : List α → List α → List α → Prop
  | done {seen : List α} : Walk next seen [] []
  | skip {seen rest order : List α} {a : α} :
      a ∈ seen → Walk next seen rest order → Walk next seen (a :: rest) order
  | take {seen rest below order : List α} {a : α} :
      a ∉ seen → Walk next (seen ++ [a]) (next a) below →
      Walk next (seen ++ a :: below) rest order →
      Walk next seen (a :: rest) (a :: below ++ order)

def Reaches (next : α → List α) : α → α → Prop := Relation.ReflTransGen fun a b => b ∈ next a

theorem Walk.unique {seen todo order order' : List α} (h : Walk next seen todo order)
    (h' : Walk next seen todo order') : order = order' := by
  induction h generalizing order' with
  | done =>
    cases h'
    rfl
  | skip hSeen _ ih =>
    cases h' with
    | skip _ hRest => exact ih hRest
    | take hNew => exact absurd hSeen hNew
  | take hNew _ _ ihBelow ihRest =>
    cases h' with
    | skip hSeen => exact absurd hSeen hNew
    | take _ hBelow hRest =>
      obtain rfl := ihBelow hBelow
      rw [ihRest hRest]

theorem Walk.not_mem_seen {seen todo order : List α} (h : Walk next seen todo order) :
    ∀ x ∈ order, x ∉ seen := by
  induction h with
  | done => simp
  | skip _ _ ih => exact ih
  | take hNew _ _ ihBelow ihRest =>
    intro x hx hSeen
    rcases List.mem_append.mp hx with hx | hx
    · rcases List.mem_cons.mp hx with rfl | hx
      · exact hNew hSeen
      · exact ihBelow x hx (List.mem_append_left _ hSeen)
    · exact ihRest x hx (List.mem_append_left _ hSeen)

theorem Walk.nodup {seen todo order : List α} (h : Walk next seen todo order) : order.Nodup := by
  induction h with
  | done => exact List.nodup_nil
  | skip _ _ ih => exact ih
  | @take seen rest below order a _ hBelow hRest ihBelow ihRest =>
    have hHead : a ∉ below := fun hMem => hBelow.not_mem_seen a hMem (by simp)
    refine List.nodup_append.mpr ⟨List.nodup_cons.mpr ⟨hHead, ihBelow⟩, ihRest, ?_⟩
    rintro x hx y hy rfl
    exact hRest.not_mem_seen x hy (List.mem_append_right _ hx)

theorem Walk.todo_mem {seen todo order : List α} (h : Walk next seen todo order) :
    ∀ x ∈ todo, x ∈ seen ++ order := by
  induction h with
  | done => simp
  | skip hSeen _ ih =>
    intro x hx
    rcases List.mem_cons.mp hx with rfl | hx
    · exact List.mem_append_left _ hSeen
    · exact ih x hx
  | take _ _ _ _ ihRest =>
    intro x hx
    rcases List.mem_cons.mp hx with rfl | hx
    · simp
    · simpa [List.append_assoc] using ihRest x hx

theorem Walk.next_mem {seen todo order : List α} (h : Walk next seen todo order) :
    ∀ x ∈ order, ∀ y ∈ next x, y ∈ seen ++ order := by
  induction h with
  | done => simp
  | skip _ _ ih => exact ih
  | @take seen rest below order a _ hBelow _ ihBelow ihRest =>
    intro x hx y hy
    have hTaken : y ∈ seen ++ [a] ++ below → y ∈ seen ++ (a :: below ++ order) := by
      intro hMem
      have hFront := List.mem_append_left order hMem
      simpa [List.append_assoc] using hFront
    rcases List.mem_append.mp hx with hx | hx
    · rcases List.mem_cons.mp hx with rfl | hx
      · exact hTaken (hBelow.todo_mem y hy)
      · exact hTaken (ihBelow x hx y hy)
    · simpa [List.append_assoc] using ihRest x hx y hy

theorem Walk.reaches {seen todo order : List α} (h : Walk next seen todo order) :
    ∀ x ∈ order, ∃ a ∈ todo, Reaches next a x := by
  induction h with
  | done => simp
  | skip _ _ ih =>
    intro x hx
    obtain ⟨a, ha, hReach⟩ := ih x hx
    exact ⟨a, List.mem_cons_of_mem _ ha, hReach⟩
  | @take seen rest below order a _ _ _ ihBelow ihRest =>
    intro x hx
    rcases List.mem_append.mp hx with hx | hx
    · rcases List.mem_cons.mp hx with rfl | hx
      · exact ⟨x, List.mem_cons_self, .refl⟩
      · obtain ⟨b, hb, hReach⟩ := ihBelow x hx
        exact ⟨a, List.mem_cons_self, .head hb hReach⟩
    · obtain ⟨b, hb, hReach⟩ := ihRest x hx
      exact ⟨b, List.mem_cons_of_mem _ hb, hReach⟩

/-- From one node a walk takes exactly what can be reached. -/
theorem Walk.mem_iff {root : α} {order : List α} (h : Walk next [] [root] order) (x : α) :
    x ∈ order ↔ Reaches next root x := by
  constructor
  · intro hx
    obtain ⟨a, ha, hReach⟩ := h.reaches x hx
    rwa [List.mem_singleton.mp ha] at hReach
  · intro hReach
    induction hReach with
    | refl => simpa using h.todo_mem root (List.mem_singleton_self root)
    | tail _ hStep ih => simpa using h.next_mem _ ih _ hStep

theorem Walk.exists_eq_cons {root : α} {order : List α} (h : Walk next [] [root] order) :
    ∃ below, order = root :: below := by
  cases h with
  | skip hSeen => cases hSeen
  | take _ _ hRest =>
    cases hRest
    exact ⟨_, List.append_nil _⟩

/-! ## Walks of finitely many nodes -/

/-- At most so many of the nodes have not been taken. -/
def Left (nodes seen : List α) (n : Nat) : Prop :=
  ∃ fresh : List α, fresh.length ≤ n ∧ ∀ x ∈ nodes, x ∈ seen ∨ x ∈ fresh

theorem left_length (nodes : List α) : Left nodes [] nodes.length :=
  ⟨nodes, Nat.le_refl _, fun _ hx => Or.inr hx⟩

theorem Left.mono {nodes seen seen' : List α} {n n' : Nat} (h : Left nodes seen n)
    (hSeen : ∀ x ∈ seen, x ∈ seen') (hn : n ≤ n') : Left nodes seen' n' := by
  obtain ⟨fresh, hLength, hNodes⟩ := h
  refine ⟨fresh, Nat.le_trans hLength hn, fun x hx => ?_⟩
  rcases hNodes x hx with hMem | hMem
  · exact Or.inl (hSeen x hMem)
  · exact Or.inr hMem

theorem Left.take {nodes seen : List α} {n : Nat} {a : α} (h : Left nodes seen n)
    (ha : a ∈ nodes) (hNew : a ∉ seen) : ∃ k, n = k + 1 ∧ Left nodes (seen ++ [a]) k := by
  obtain ⟨fresh, hLength, hNodes⟩ := h
  have hFresh : a ∈ fresh := (hNodes a ha).resolve_left hNew
  obtain ⟨front, back, rfl⟩ := List.append_of_mem hFresh
  rw [List.length_append, List.length_cons] at hLength
  refine ⟨n - 1, by omega, front ++ back, ?_, fun x hx => ?_⟩
  · rw [List.length_append]
    omega
  · rcases hNodes x hx with hMem | hMem
    · exact Or.inl (List.mem_append_left _ hMem)
    · by_cases hEq : x = a
      · exact Or.inl (by simp [hEq])
      · exact Or.inr (by simpa [hEq] using hMem)

theorem exists_walk {nodes : List α} (hClosed : ∀ x ∈ nodes, ∀ y ∈ next x, y ∈ nodes) (n : Nat) :
    ∀ todo seen, (∀ x ∈ todo, x ∈ nodes) → Left nodes seen n →
      ∃ order, Walk next seen todo order := by
  -- By the nodes that are left, and for each number of them by the list.
  induction n with
  | zero =>
    intro todo seen hTodo hLeft
    induction todo with
    | nil => exact ⟨[], .done⟩
    | cons a rest ih =>
      obtain ⟨ha, hRest⟩ := List.forall_mem_cons.mp hTodo
      obtain ⟨order, hOrder⟩ := ih hRest
      by_cases hSeen : a ∈ seen
      · exact ⟨order, .skip hSeen hOrder⟩
      · obtain ⟨k, hk, _⟩ := hLeft.take ha hSeen
        cases hk
  | succ n ihNodes =>
    intro todo
    induction todo with
    | nil => exact fun seen _ _ => ⟨[], .done⟩
    | cons a rest ih =>
      intro seen hTodo hLeft
      obtain ⟨ha, hRest⟩ := List.forall_mem_cons.mp hTodo
      by_cases hSeen : a ∈ seen
      · obtain ⟨order, hOrder⟩ := ih seen hRest hLeft
        exact ⟨order, .skip hSeen hOrder⟩
      · obtain ⟨k, hk, hBelow⟩ := hLeft.take ha hSeen
        obtain rfl := Nat.succ.inj hk
        obtain ⟨below, hBelow⟩ := ihNodes (next a) (seen ++ [a]) (hClosed a ha) hBelow
        have hLeftRest : Left nodes (seen ++ a :: below) (n + 1) :=
          hLeft.mono (fun x hx => List.mem_append_left _ hx) (Nat.le_refl _)
        obtain ⟨order, hOrder⟩ := ih (seen ++ a :: below) hRest hLeftRest
        exact ⟨a :: below ++ order, .take hSeen hBelow hOrder⟩

end TraitClient.DepthFirst
