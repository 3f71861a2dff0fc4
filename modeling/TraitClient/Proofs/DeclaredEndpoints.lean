import TraitClient.Emission.Unit
import TraitClient.Proofs.ServiceHierarchy

/-!
# Endpoints and the blocks that implement them

Names tell the methods of a service apart, in the whole hierarchy.  A function with an HTTP method
is kept if no function before it has its name, in the order of the walk, and stands in the block of
the trait that declares it.  A function of a name that an earlier one has is in no block.
-/
namespace TraitClient.Extraction

variable {c : Context} {interface : String}

/-! ## Walks whatever the paths of the traits are -/

/-- A trait that is found by its path.  Of traits of one path this is the first. -/
def Listed (index : TraitIndex) (t : TraitEntry) : Prop := index.find? t.cratePath = some t

theorem supertrait?_listed {index : TraitIndex} {e parent : TraitEntry} {bound : Source.PlainPath}
    (h : supertrait? index e bound = some parent) : Listed index parent := by
  unfold supertrait? at h
  split at h
  · cases h
  · obtain ⟨candidate, _, hFind⟩ := List.exists_of_findSome?_eq_some h
    have hPath : parent.cratePath = anchorPath candidate e.modulePath index.modules := by
      simpa using List.find?_some hFind
    rw [Listed, hPath]
    exact hFind

theorem parents_listed {index : TraitIndex} {e parent : TraitEntry}
    (h : parent ∈ parents index e) : Listed index parent := by
  obtain ⟨bound, _, hBound⟩ := List.mem_filterMap.mp h
  exact supertrait?_listed hBound

/-- A walk that ended well took some traits one after the other, each of a path of its own. -/
structure Takes (c : Context) (interface : String) (found found' : Collected)
    (order : List TraitEntry) : Prop where
  run : (order.foldlM (takeTrait c interface) found).result = .ok found'
  fresh : ∀ t ∈ order, t.cratePath ∉ found.visited
  nodup : (order.map (·.cratePath)).Nodup

theorem Takes.nil (found : Collected) : Takes c interface found found [] :=
  ⟨rfl, fun _ ht => absurd ht List.not_mem_nil, List.nodup_nil⟩

theorem Takes.append {found found' found'' : Collected} {order order' : List TraitEntry}
    (h : Takes c interface found found' order) (h' : Takes c interface found' found'' order') :
    Takes c interface found found'' (order ++ order') := by
  have hVisited := takeAll_visited h.run
  refine ⟨?_, ?_, ?_⟩
  · rw [List.foldlM_append, Logged.result_bind, h.run]
    exact h'.run
  · intro t ht
    rcases List.mem_append.mp ht with ht | ht
    · exact h.fresh t ht
    · exact fun hOld => h'.fresh t ht (hVisited ▸ List.mem_append_left _ hOld)
  · rw [List.map_append, List.nodup_append]
    refine ⟨h.nodup, h'.nodup, ?_⟩
    rintro path hPath path' hPath' rfl
    obtain ⟨t, ht, rfl⟩ := List.mem_map.mp hPath'
    exact h'.fresh t ht (hVisited ▸ List.mem_append_right _ hPath)

theorem Takes.singleton {found found' : Collected} {e : TraitEntry}
    (hNew : e.cratePath ∉ found.visited)
    (h : (takeTrait c interface found e).result = .ok found') :
    Takes c interface found found' [e] := by
  refine ⟨?_, ?_, List.nodup_singleton _⟩
  · rw [List.foldlM_cons, Logged.result_bind, h]
    rfl
  · intro t ht
    rwa [List.mem_singleton.mp ht]

theorem foldlM_takes {visit : TraitEntry → Collected → Walk Collected}
    (hVisit : ∀ t found found', (visit t found).result = .ok found' →
      ∃ order, Takes c interface found found' order ∧ ∀ t' ∈ order, t' = t ∨ Listed c.index t')
    {ts : List TraitEntry} (hListed : ∀ t ∈ ts, Listed c.index t) {found found' : Collected}
    (h : (ts.foldlM (fun found t => visit t found) found).result = .ok found') :
    ∃ order, Takes c interface found found' order ∧ ∀ t ∈ order, Listed c.index t := by
  induction ts generalizing found with
  | nil =>
    cases h
    exact ⟨[], .nil _, fun t ht => absurd ht List.not_mem_nil⟩
  | cons t ts ih =>
    obtain ⟨hHead, hRest⟩ := List.forall_mem_cons.mp hListed
    rw [List.foldlM_cons] at h
    obtain ⟨next, hFirst, hThen⟩ := Logged.bind_result_eq_ok h
    obtain ⟨front, hFront, hFrontListed⟩ := hVisit t found next hFirst
    obtain ⟨back, hBack, hBackListed⟩ := ih hRest hThen
    refine ⟨front ++ back, hFront.append hBack, fun t' ht' => ?_⟩
    rcases List.mem_append.mp ht' with ht' | ht'
    · rcases hFrontListed t' ht' with rfl | hListed'
      · exact hHead
      · exact hListed'
    · exact hBackListed t' ht'

theorem collect_takes (fuel : Nat) (e : TraitEntry) (found found' : Collected)
    (h : (collect c interface fuel e found).result = .ok found') :
    ∃ order, Takes c interface found found' order ∧ ∀ t ∈ order, t = e ∨ Listed c.index t := by
  induction fuel generalizing e found found' with
  | zero =>
    cases h
    exact ⟨[], .nil _, fun t ht => absurd ht List.not_mem_nil⟩
  | succ fuel ih =>
    by_cases hVisited : e.cratePath ∈ found.visited
    · rw [collect_of_visited hVisited] at h
      cases h
      exact ⟨[], .nil _, fun t ht => absurd ht List.not_mem_nil⟩
    rw [collect_of_new hVisited] at h
    obtain ⟨next, hTake, hBelow⟩ := Logged.bind_result_eq_ok h
    obtain ⟨below, hTakes, hListed⟩ := foldlM_takes ih (fun t ht => parents_listed ht) hBelow
    refine ⟨e :: below, (Takes.singleton hVisited hTake).append hTakes, fun t ht => ?_⟩
    rcases List.mem_cons.mp ht with rfl | ht
    · exact .inl rfl
    · exact .inr (hListed t ht)

/-- The traits that a walk from a service takes are gathered in its interface. -/
theorem Takes.gathers {e : TraitEntry} {order : List TraitEntry} {found : Collected} {i : Interface}
    (h : Takes c interface .empty found (e :: order)) (hMethods : i.methods = found.methods)
    (hSupertraits : i.supertraits = found.supertraits) :
    Gathers c e order i ∧ ∀ t ∈ e :: order, ∀ f ∈ t.declaration.functions, ¬Faulty c t f := by
  have hRun := h.run
  obtain ⟨hSelf, hNodup⟩ := List.nodup_cons.mp h.nodup
  rcases takeService_result c interface e order with ⟨_, err, hError⟩ | ⟨hSound, hOk⟩
  · rw [hError] at hRun
    cases hRun
  · rw [hOk] at hRun
    cases hRun
    exact ⟨⟨hSupertraits, hSupertraits ▸ hNodup, hSupertraits ▸ hSelf, hMethods,
      fun _ => mem_declaredMethods_declaredIn, fun _ _ _ => mem_inheritedMethods_declaredIn⟩, hSound⟩

/-- An extracted interface is gathered from the traits of the walk, none of which has a fault. -/
theorem interfaceOf_gathers {e : TraitEntry} {i : Interface}
    (h : (interfaceOf c e).result = .ok i) :
    i.name = e.declaration.name ∧ ∃ order, Gathers c e order i ∧ (∀ t ∈ order, Listed c.index t) ∧
      ∀ t ∈ e :: order, ∀ f ∈ t.declaration.functions, ¬Faulty c t f := by
  obtain ⟨found, hCollect, _, hName, hMethods, hSupertraits⟩ := exists_collected h
  have hNew : e.cratePath ∉ Collected.empty.visited := List.not_mem_nil
  rw [collect_of_new hNew] at hCollect
  obtain ⟨next, hTake, hRest⟩ := Logged.bind_result_eq_ok hCollect
  obtain ⟨order, hBelow, hListed⟩ :=
    foldlM_takes (collect_takes _) (fun t ht => parents_listed ht) hRest
  have hTakes := (Takes.singleton hNew hTake).append hBelow
  obtain ⟨hGathers, hSound⟩ := hTakes.gathers hMethods hSupertraits
  exact ⟨hName, order, hGathers, hListed, hSound⟩

/-! ## Functions with an HTTP method -/

def isVerb : Option AnnotationKind → Bool
  | some (.verb _) => true
  | _ => false

def carriesVerb (c : Context) (e : TraitEntry) (f : Source.TraitFunction) : Bool :=
  f.attributes.any fun a => isVerb (c.table.classify e.imports a)

/-- The functions of a trait with an HTTP method, each under the name that the trait has for its
methods. -/
def endpointsOf (c : Context) (declaredIn : String) (e : TraitEntry) : List (String × String) :=
  (e.declaration.functions.filter (carriesVerb c e)).map fun f => (declaredIn, f.name)

/-- All functions of a hierarchy with an HTTP method, in the order of the walk. -/
def endpoints (c : Context) (e : TraitEntry) (order : List TraitEntry) : List (String × String) :=
  endpointsOf c e.declaration.name e ++ order.flatMap fun t => endpointsOf c t.cratePath t

theorem notesFrom_verbs {classify : Source.Attribute → Option AnnotationKind}
    {attributes : List Source.Attribute} {notes notes' : FunctionNotes}
    (h : notesFrom classify notes attributes = .ok notes') :
    notes'.verbs = [] ↔ notes.verbs = [] ∧ attributes.any (fun a => isVerb (classify a)) = false := by
  induction attributes generalizing notes with
  | nil =>
    cases h
    simp
  | cons a attributes ih =>
    rw [notesFrom] at h
    rw [List.any_cons]
    cases hKind : classify a with
    | none =>
      rw [hKind] at h
      simpa [isVerb] using ih h
    | some kind =>
      rw [hKind] at h
      cases kind with
      | verb v => simpa [isVerb] using ih h
      | modifier kind =>
        cases hModifiers : withModifier notes.modifiers a kind with
        | error fault =>
          simp only [hModifiers] at h
          cases h
        | ok modifiers =>
          simp only [hModifiers] at h
          simpa [isVerb] using ih h
      | _ => cases h

theorem methodOf?_cases {table : AnnotationTable} {imports : Imports} {d : String}
    {f : Source.TraitFunction} {method : Option Method}
    (h : methodOf? table imports d f = .ok method) :
    method.isSome = f.attributes.any (fun a => isVerb (table.classify imports a)) ∧
      ∀ m, method = some m → m.name = f.name := by
  obtain ⟨notes, hNotes, hCases⟩ := methodOf?_eq_ok h
  have hVerbs := notesFrom_verbs hNotes
  rcases hCases with ⟨hNone, rfl⟩ | ⟨hSome, m, rfl, hName, _⟩
  · simp [(hVerbs.mp hNone).2]
  · refine ⟨?_, by simp [hName]⟩
    by_contra hNo
    exact hSome (hVerbs.mpr ⟨rfl, by simpa using hNo⟩)

theorem verbMethod?_of_sound {e : TraitEntry} {f : Source.TraitFunction} (hSound : ¬Faulty c e f)
    (inherited : Bool) (d : String) :
    (verbMethod? c e inherited d f).map (fun m => (m.declaredIn, m.name)) =
      if carriesVerb c e f then some (d, f.name) else none := by
  cases hMethod : methodOf? c.table e.imports d f with
  | error fault => exact absurd ⟨fault, methodOf?_error_iff.mp hMethod⟩ hSound
  | ok method =>
    obtain ⟨hVerb, hName⟩ := methodOf?_cases hMethod
    rw [carriesVerb, ← hVerb]
    cases method with
    | none => simp [verbMethod?, hMethod]
    | some m =>
      have hDeclared := declaredIn_of_methodOf? hMethod
      cases inherited with
      | true => simp [verbMethod?, hMethod, Method.anchored, hDeclared, hName m rfl]
      | false => simp [verbMethod?, hMethod, hDeclared, hName m rfl]

theorem map_verbMethods {e : TraitEntry} (inherited : Bool) (d : String)
    (hSound : ∀ f ∈ e.declaration.functions, ¬Faulty c e f) :
    (e.declaration.functions.filterMap (verbMethod? c e inherited d)).map
      (fun m => (m.declaredIn, m.name)) = endpointsOf c d e := by
  rw [endpointsOf, List.map_filterMap]
  generalize e.declaration.functions = functions at hSound ⊢
  induction functions with
  | nil => rfl
  | cons f fs ih =>
    obtain ⟨hHead, hRest⟩ := List.forall_mem_cons.mp hSound
    rw [List.filterMap_cons, verbMethod?_of_sound hHead, List.filter_cons]
    cases carriesVerb c e f with
    | true => simp [ih hRest]
    | false => simp [ih hRest]

theorem Gathers.map_methods {e : TraitEntry} {order : List TraitEntry}
    (hSound : ∀ t ∈ e :: order, ∀ f ∈ t.declaration.functions, ¬Faulty c t f) :
    (declaredMethods c e ++ order.flatMap (inheritedMethods c)).map
      (fun m => (m.declaredIn, m.name)) = endpoints c e order := by
  obtain ⟨hOwn, hInherited⟩ := List.forall_mem_cons.mp hSound
  rw [endpoints, List.map_append, List.map_flatMap, declaredMethods, map_verbMethods false _ hOwn]
  congr 1
  refine List.flatMap_congr fun t ht => ?_
  exact map_verbMethods true _ (hInherited t ht)

/-! ## The first of each name -/

theorem filter_firstByName (methods : List Method) (name : String) :
    (firstByName methods).filter (·.name == name) = (methods.find? (·.name == name)).toList := by
  induction methods with
  | nil => rfl
  | cons m methods ih =>
    rw [firstByName]
    by_cases hName : m.name = name
    · have hNone : ((firstByName methods).filter (·.name != m.name)).filter (·.name == name) = [] := by
        rw [List.filter_filter, List.filter_eq_nil_iff]
        intro other _ hBoth
        simp [hName] at hBoth
      rw [List.filter_cons_of_pos (by simp [hName]), hNone, List.find?_cons_of_pos (by simp [hName])]
      rfl
    · have hSame : ((firstByName methods).filter (·.name != m.name)).filter (·.name == name) =
          (firstByName methods).filter (·.name == name) := by
        rw [List.filter_filter]
        refine List.filter_congr fun other _ => ?_
        by_cases hOther : other.name = name
        · simp [hOther, Ne.symm hName]
        · simp [hOther]
      rw [List.filter_cons_of_neg (by simp [hName]), hSame, ih,
        List.find?_cons_of_neg (by simp [hName])]

theorem firstByName_subset (methods : List Method) : ∀ m ∈ firstByName methods, m ∈ methods := by
  induction methods with
  | nil => exact fun m hm => hm
  | cons m methods ih =>
    intro other hOther
    rcases List.mem_cons.mp hOther with rfl | hOther
    · exact List.mem_cons_self
    · exact List.mem_cons_of_mem _ (ih other (List.mem_filter.mp hOther).1)

/-! ## Blocks -/

open Emission (TraitGroup addToGroup traitGroups)

def block (groups : List TraitGroup) (trait : String) : List Code.Function :=
  (groups.find? (·.trait == trait)).elim [] (·.functions)

theorem map_trait_addToGroup {trait : String} {f : Code.Function} {groups : List TraitGroup}
    (h : trait ∈ groups.map (·.trait)) :
    (addToGroup trait f groups).map (·.trait) = groups.map (·.trait) := by
  induction groups with
  | nil => exact absurd h List.not_mem_nil
  | cons g groups ih =>
    rw [addToGroup]
    split
    · rfl
    · rename_i hOther
      rcases List.mem_cons.mp h with rfl | h
      · exact absurd (beq_self_eq_true _) hOther
      · rw [List.map_cons, ih h, List.map_cons]

theorem block_addToGroup {trait : String} {f : Code.Function} {groups : List TraitGroup}
    (h : trait ∈ groups.map (·.trait)) (trait' : String) :
    block (addToGroup trait f groups) trait' =
      if trait == trait' then block groups trait' ++ [f] else block groups trait' := by
  induction groups with
  | nil => exact absurd h List.not_mem_nil
  | cons g groups ih =>
    rw [addToGroup]
    by_cases hHead : g.trait = trait
    · subst hHead
      simp only [beq_self_eq_true, if_true, block, List.find?_cons]
      cases g.trait == trait' <;> rfl
    · have hTail : trait ∈ groups.map (·.trait) :=
        (List.mem_cons.mp h).resolve_left fun hEq => hHead hEq.symm
      rw [if_neg (by simpa using hHead)]
      by_cases hFound : g.trait = trait'
      · have hOther : (trait == trait') = false :=
          beq_eq_false_iff_ne.mpr fun hEq => hHead (hFound.trans hEq.symm)
        simp [block, hFound, hOther]
      · have hSkip (groups : List TraitGroup) : block (g :: groups) trait' = block groups trait' := by
          rw [block, List.find?_cons_of_neg (by simpa using hFound)]
          rfl
        rw [hSkip, hSkip, ih hTail]

def implemented (methods : List (Method × BodyEncoding)) (trait : String) : List Code.Function :=
  (methods.filter (·.1.declaredIn == trait)).map fun m => MethodBody.function m.1 m.2

theorem foldl_addToGroup (methods : List (Method × BodyEncoding)) (groups : List TraitGroup)
    (h : ∀ m ∈ methods, m.1.declaredIn ∈ groups.map (·.trait)) :
    let all := methods.foldl
      (fun groups m => addToGroup m.1.declaredIn (MethodBody.function m.1 m.2) groups) groups
    all.map (·.trait) = groups.map (·.trait) ∧
      ∀ trait, block all trait = block groups trait ++ implemented methods trait := by
  induction methods generalizing groups with
  | nil => exact ⟨rfl, fun trait => (List.append_nil _).symm⟩
  | cons m methods ih =>
    obtain ⟨hHead, hRest⟩ := List.forall_mem_cons.mp h
    have hTraits := map_trait_addToGroup (f := MethodBody.function m.1 m.2) hHead
    obtain ⟨hSame, hBlocks⟩ := ih (addToGroup m.1.declaredIn (MethodBody.function m.1 m.2) groups)
      fun m' hm' => hTraits ▸ hRest m' hm'
    refine ⟨hSame.trans hTraits, fun trait => (hBlocks trait).trans ?_⟩
    rw [block_addToGroup hHead, implemented, implemented, List.filter_cons]
    cases m.1.declaredIn == trait with
    | true => simp
    | false => rfl

theorem traitGroups_blocks {i : Interface} (encodings : List BodyEncoding)
    (h : ∀ m ∈ i.methods, m.declaredIn ∈ i.name :: i.supertraits) :
    (traitGroups i encodings).map (·.trait) = i.name :: i.supertraits ∧
      ∀ trait, block (traitGroups i encodings) trait =
        implemented (i.methods.zip encodings) trait := by
  have hStart : ((i.name :: i.supertraits).map fun trait => (⟨trait, []⟩ : TraitGroup)).map
      (·.trait) = i.name :: i.supertraits := by
    rw [List.map_map]
    exact List.map_id _
  have hEmpty (traits : List String) (trait : String) :
      block (traits.map fun trait => ⟨trait, []⟩) trait = [] := by
    rw [block, List.find?_map]
    cases traits.find? _ <;> rfl
  obtain ⟨hTraits, hBlocks⟩ := foldl_addToGroup (i.methods.zip encodings)
    ((i.name :: i.supertraits).map fun trait => ⟨trait, []⟩) fun m hm => by
      rw [hStart]
      exact h m.1 (List.of_mem_zip hm).1
  refine ⟨hTraits.trans hStart, fun trait => (hBlocks trait).trans ?_⟩
  rw [hEmpty, List.nil_append]

/-! ## Endpoints of a service -/

/-- What becomes of the functions of a hierarchy with an HTTP method.  Of a name the first function
is kept, for the trait that declares it and in the block of that trait. -/
structure KeepsEndpoints (c : Context) (e : TraitEntry) (order : List TraitEntry) (i : Interface) :
    Prop where
  name : i.name = e.declaration.name
  supertraits : i.supertraits = order.map (·.cratePath)
  listed : ∀ t ∈ order, c.index.find? t.cratePath = some t
  kept : ∀ q ∈ endpoints c e order, ∃ m, i.methods.filter (·.name == q.2) = [m] ∧
    (endpoints c e order).find? (·.2 == q.2) = some (m.declaredIn, m.name)
  only : ∀ m ∈ i.methods, (m.declaredIn, m.name) ∈ endpoints c e order
  blocks : ∀ encodings, (traitGroups i encodings).map (·.trait) = i.name :: i.supertraits
  block : ∀ encodings, encodings.length = i.methods.length → ∀ q ∈ endpoints c e order,
    ((block (traitGroups i encodings) q.1).filter (·.name == q.2)).length =
      if (endpoints c e order).find? (·.2 == q.2) = some q then 1 else 0

theorem length_implemented {methods : List Method} {encodings : List BodyEncoding}
    (hLength : encodings.length = methods.length) (trait name : String) :
    ((implemented (methods.zip encodings) trait).filter (·.name == name)).length =
      ((methods.filter (·.name == name)).filter (·.declaredIn == trait)).length := by
  have hFst : (methods.zip encodings).map Prod.fst = methods :=
    List.map_fst_zip (Nat.le_of_eq hLength.symm)
  conv_rhs => rw [← hFst]
  rw [implemented, List.filter_map, List.length_map, List.filter_map, List.filter_map,
    List.length_map, List.filter_filter, List.filter_filter]
  refine congrArg List.length (List.filter_congr fun m _ => ?_)
  exact Bool.and_comm _ _

theorem declaredIn_mem_of_mem_endpoints {e : TraitEntry} {order : List TraitEntry}
    {q : String × String} (h : q ∈ endpoints c e order) :
    q.1 ∈ e.declaration.name :: order.map (·.cratePath) := by
  rcases List.mem_append.mp h with hOwn | hInherited
  · obtain ⟨f, _, rfl⟩ := List.mem_map.mp hOwn
    exact List.mem_cons_self
  · obtain ⟨t, ht, hOf⟩ := List.mem_flatMap.mp hInherited
    obtain ⟨f, _, rfl⟩ := List.mem_map.mp hOf
    exact List.mem_cons_of_mem _ (List.mem_map_of_mem ht)

theorem interfaceOf_keepsEndpoints (c : Context) (e : TraitEntry) (i : Interface)
    (h : (interfaceOf c e).result = .ok i) : ∃ order, KeepsEndpoints c e order i := by
  obtain ⟨hName, order, hGathers, hListed, hSound⟩ := interfaceOf_gathers h
  have hMap := Gathers.map_methods hSound
  have hFind (name : String) : (endpoints c e order).find? (·.2 == name) =
      ((declaredMethods c e ++ order.flatMap (inheritedMethods c)).find? (·.name == name)).map
        fun m => (m.declaredIn, m.name) := by
    rw [← hMap, List.find?_map]
    rfl
  have hKept : ∀ q ∈ endpoints c e order, ∃ m, i.methods.filter (·.name == q.2) = [m] ∧
      (endpoints c e order).find? (·.2 == q.2) = some (m.declaredIn, m.name) := by
    intro q hq
    rw [hGathers.methods, filter_firstByName, hFind]
    cases hFirst : (declaredMethods c e ++ order.flatMap (inheritedMethods c)).find?
        (·.name == q.2) with
    | some m => exact ⟨m, rfl, rfl⟩
    | none =>
      rw [← hMap] at hq
      obtain ⟨m, hm, rfl⟩ := List.mem_map.mp hq
      exact absurd (beq_self_eq_true m.name) (List.find?_eq_none.mp hFirst m hm)
  have hOnly : ∀ m ∈ i.methods, (m.declaredIn, m.name) ∈ endpoints c e order := by
    intro m hm
    rw [hGathers.methods] at hm
    exact hMap ▸ List.mem_map_of_mem (firstByName_subset _ m hm)
  have hTraits : ∀ m ∈ i.methods, m.declaredIn ∈ i.name :: i.supertraits := by
    intro m hm
    rw [hName, hGathers.supertraits]
    exact declaredIn_mem_of_mem_endpoints (hOnly m hm)
  refine ⟨order, hName, hGathers.supertraits, hListed, hKept, hOnly,
    fun encodings => (traitGroups_blocks encodings hTraits).1, fun encodings hLength q hq => ?_⟩
  obtain ⟨m, hOnce, hFirst⟩ := hKept q hq
  have hSameName : m.name = q.2 := by simpa using List.find?_some hFirst
  rw [(traitGroups_blocks encodings hTraits).2, length_implemented hLength, hOnce, hFirst]
  by_cases hSame : m.declaredIn = q.1
  · have hEq : (m.declaredIn, m.name) = q := Prod.ext hSame hSameName
    rw [if_pos (congrArg some hEq), List.filter_cons_of_pos (by simpa using hSame)]
    rfl
  · have hNe : some (m.declaredIn, m.name) ≠ some q := fun hEq =>
      hSame (congrArg Prod.fst (Option.some.inj hEq))
    rw [if_neg hNe, List.filter_cons_of_neg (by simpa using hSame)]
    rfl

theorem meetingService_result : ∃ i, (interfaceOf meetingContext meetingService).result = .ok i ∧
    i.supertraits = ["crate::docs::Reading", "crate::docs::Shared", "crate::docs::Writing"] ∧
    i.methods.map (fun m => (m.declaredIn, m.name)) =
      [("DocsApi", "list"), ("DocsApi", "read"), ("crate::docs::Reading", "count"),
        ("crate::docs::Shared", "ping"), ("crate::docs::Writing", "draft")] := by
  have hShown : ((interfaceOf meetingContext meetingService).result.toOption.map fun i =>
      (i.supertraits, i.methods.map fun m => (m.declaredIn, m.name))) =
      some (["crate::docs::Reading", "crate::docs::Shared", "crate::docs::Writing"],
        [("DocsApi", "list"), ("DocsApi", "read"), ("crate::docs::Reading", "count"),
          ("crate::docs::Shared", "ping"), ("crate::docs::Writing", "draft")]) := by
    decide +kernel
  cases hResult : (interfaceOf meetingContext meetingService).result with
  | error err =>
    rw [hResult] at hShown
    cases hShown
  | ok i =>
    rw [hResult] at hShown
    obtain ⟨hSupertraits, hMethods⟩ := Prod.mk.inj (Option.some.inj hShown)
    exact ⟨i, rfl, hSupertraits, hMethods⟩

theorem meetingService_keepsEndpoints :
    ∃ i, (interfaceOf meetingContext meetingService).result = .ok i ∧
      ∃ order, KeepsEndpoints meetingContext meetingService order i := by
  obtain ⟨i, hResult, _⟩ := meetingService_result
  exact ⟨i, hResult, interfaceOf_keepsEndpoints meetingContext meetingService i hResult⟩

/-- The service has a method `list`, so that of its supertrait is in no block. -/
theorem meetingService_drops_list :
    ¬∀ i, (interfaceOf meetingContext meetingService).result = .ok i →
      ∀ t ∈ meetingContext.index.traits, t.cratePath ∈ i.supertraits →
        ∀ f ∈ t.declaration.functions, carriesVerb meetingContext t f = true →
          ∃ m ∈ i.methods, m.name = f.name ∧ m.declaredIn = t.cratePath := by
  intro hAll
  obtain ⟨i, hResult, hSupertraits, hMethods⟩ := meetingService_result
  have hDropped : ∃ t ∈ meetingContext.index.traits, t.cratePath = "crate::docs::Shared" ∧
      ∃ f ∈ t.declaration.functions, carriesVerb meetingContext t f = true ∧ f.name = "list" := by
    decide +kernel
  obtain ⟨t, ht, hPath, f, hf, hVerb, hName⟩ := hDropped
  obtain ⟨m, hm, hSameName, hDeclared⟩ :=
    hAll i hResult t ht (by simp [hPath, hSupertraits]) f hf hVerb
  have hMem : (m.declaredIn, m.name) ∈ i.methods.map fun m => (m.declaredIn, m.name) :=
    List.mem_map_of_mem hm
  rw [hMethods, hDeclared, hPath, hSameName, hName] at hMem
  revert hMem
  decide

end TraitClient.Extraction
