import TraitClient.Extraction.Service
import TraitClient.Proofs.HierarchyWalk

/-!
# A service with its supertraits

The interface of a service trait holds the methods of the traits that it reaches, the first of each
name, and there is no such interface only if a function of one of these traits is faulty.
-/
namespace TraitClient.Extraction

open DepthFirst (Reaches Left)

variable {c : Context} {interface : String}

/-! ## Methods of one trait -/

/-- What a function is as a method of the service, if it is one. -/
def verbMethod? (c : Context) (e : TraitEntry) (inherited : Bool) (declaredIn : String)
    (f : Source.TraitFunction) : Option Method :=
  match methodOf? c.table e.imports declaredIn f with
  | .ok (some m) => some (if inherited then m.anchored e.modulePath c.index.modules else m)
  | _ => none

def declaredMethods (c : Context) (e : TraitEntry) : List Method :=
  e.declaration.functions.filterMap (verbMethod? c e false e.declaration.name)

/-- The methods that a supertrait hands down, anchored. -/
def inheritedMethods (c : Context) (e : TraitEntry) : List Method :=
  e.declaration.functions.filterMap (verbMethod? c e true e.cratePath)

/-- A function that is no method and is not left out either. -/
def Faulty (c : Context) (e : TraitEntry) (f : Source.TraitFunction) : Prop :=
  ∃ fault, methodOf? c.table e.imports e.cratePath f = .error fault

/-- Every later method of a name that was there before is dropped. -/
def firstByName : List Method → List Method
  | [] => []
  | m :: rest => m :: (firstByName rest).filter (·.name != m.name)

def addAll (found : List Method) (more : List Method) : List Method :=
  more.foldl (fun found m => if found.any (·.name == m.name) then found else found ++ [m]) found

theorem addAll_append (found front back : List Method) :
    addAll found (front ++ back) = addAll (addAll found front) back :=
  List.foldl_append

theorem addAll_eq (found more : List Method) :
    addAll found more =
      found ++ (firstByName more).filter fun m => !found.any (·.name == m.name) := by
  induction more generalizing found with
  | nil => simp [addAll, firstByName]
  | cons m more ih =>
    have hStep : addAll found (m :: more) =
        addAll (if found.any (·.name == m.name) then found else found ++ [m]) more := rfl
    rw [hStep, firstByName, List.filter_cons]
    by_cases hTaken : found.any (·.name == m.name) = true
    · rw [if_pos hTaken, ih, if_neg (by simp [hTaken]), List.filter_filter]
      congr 1
      refine List.filter_congr fun other _ => ?_
      by_cases hName : other.name = m.name
      · simp [hName, hTaken]
      · simp [hName]
    · rw [if_neg hTaken, ih, if_pos (by simp [hTaken]), List.filter_filter, List.append_assoc,
        List.singleton_append]
      congr 2
      refine List.filter_congr fun other _ => ?_
      have hSymm : (m.name == other.name) = (other.name == m.name) := BEq.comm
      rw [List.any_append, Bool.not_or, List.any_cons, List.any_nil, Bool.or_false, hSymm, bne]

theorem addAll_nil (more : List Method) : addAll [] more = firstByName more := by
  rw [addAll_eq]
  simp

/-- Whether a function has a method depends on its notes alone; the method has its name, its
parameters and its return type. -/
theorem methodOf?_eq_ok {table : AnnotationTable} {imports : Imports} {d : String}
    {f : Source.TraitFunction} {method : Option Method}
    (h : methodOf? table imports d f = .ok method) :
    ∃ notes, notesFrom (table.classify imports) ⟨[], {}⟩ f.attributes = .ok notes ∧
      (notes.verbs = [] ∧ method = none ∨
        notes.verbs ≠ [] ∧ ∃ m, method = some m ∧ m.name = f.name ∧
          parametersOf table imports f.parameters = .ok m.parameters ∧
          (m.returnType = .unit ∨ ∃ t ∈ f.output, imports.resolve t = .ok m.returnType)) := by
  unfold methodOf? at h
  obtain ⟨notes, hNotes, h⟩ := bind_eq_ok h
  refine ⟨notes, hNotes, ?_⟩
  split at h
  · rename_i hNone
    cases h
    exact .inl ⟨hNone, rfl⟩
  · rename_i verb a hOne
    refine .inr ⟨by simp [hOne], ?_⟩
    dsimp only at h
    split at h
    · obtain ⟨template, _, h⟩ := bind_eq_ok h
      obtain ⟨parameters, hParameters, h⟩ := bind_eq_ok h
      cases hOutput : f.output with
      | none =>
        rw [hOutput] at h
        cases h
        exact ⟨_, rfl, rfl, hParameters, .inl rfl⟩
      | some type =>
        rw [hOutput] at h
        cases hType : imports.resolve type with
        | error e =>
          simp only [hType] at h
          cases h
        | ok returnType =>
          simp only [hType] at h
          cases h
          exact ⟨_, rfl, rfl, hParameters, .inr ⟨type, rfl, hType⟩⟩
    · cases h
  · cases h

theorem methodOf?_some {table : AnnotationTable} {imports : Imports} {d : String}
    {f : Source.TraitFunction} {m : Method}
    (h : methodOf? table imports d f = .ok (some m)) :
    m.name = f.name ∧ parametersOf table imports f.parameters = .ok m.parameters ∧
      (m.returnType = .unit ∨ ∃ t ∈ f.output, imports.resolve t = .ok m.returnType) := by
  obtain ⟨notes, _, ⟨_, hNone⟩ | ⟨_, m', hSome, hMethod⟩⟩ := methodOf?_eq_ok h
  · cases hNone
  · cases hSome
    exact hMethod

/-- The trait that declares a method is written into it and changes nothing else. -/
theorem methodOf?_declaredIn (table : AnnotationTable) (imports : Imports) (d d' : String)
    (f : Source.TraitFunction) :
    methodOf? table imports d f =
      (methodOf? table imports d' f).map (Option.map fun m => { m with declaredIn := d }) := by
  unfold methodOf?
  cases notesFrom (table.classify imports) ⟨[], {}⟩ f.attributes with
  | error fault => rfl
  | ok notes =>
    simp only [bind, Except.bind]
    split
    · rfl
    · rename_i verb a _
      cases a.requiredString "a path template string" with
      | error e => rfl
      | ok template =>
        cases parametersOf table imports f.parameters with
        | error fault => rfl
        | ok parameters =>
          cases f.output with
          | none => rfl
          | some type => cases hType : imports.resolve type <;> simp [hType, Except.map]
    · rfl

theorem methodOf?_error_iff {table : AnnotationTable} {imports : Imports} {d d' : String}
    {f : Source.TraitFunction} {fault : Fault} :
    methodOf? table imports d f = .error fault ↔ methodOf? table imports d' f = .error fault := by
  rw [methodOf?_declaredIn table imports d d']
  cases methodOf? table imports d' f <;> simp [Except.map]

theorem declaredIn_of_methodOf? {table : AnnotationTable} {imports : Imports} {d : String}
    {f : Source.TraitFunction} {m : Method} (h : methodOf? table imports d f = .ok (some m)) :
    m.declaredIn = d := by
  have hEq := methodOf?_declaredIn table imports d d f
  rw [h] at hEq
  have hMethod : m = { m with declaredIn := d } := Option.some.inj (Except.ok.inj hEq)
  exact congrArg Method.declaredIn hMethod

theorem declaredIn_of_verbMethod? {e : TraitEntry} {inherited : Bool} {d : String}
    {f : Source.TraitFunction} {m : Method} (h : verbMethod? c e inherited d f = some m) :
    m.declaredIn = d := by
  unfold verbMethod? at h
  split at h
  · rename_i m' hMethod
    cases h
    have hDeclared := declaredIn_of_methodOf? hMethod
    split
    · exact hDeclared
    · exact hDeclared
  · cases h

/-- The methods of one trait are added in order, unless one of its functions is faulty. -/
theorem ownMethods_result (c : Context) (interface : String) (e : TraitEntry) (inherited : Bool)
    (d : String) (fs : List Source.TraitFunction) (found : List Method) :
    ((∃ f ∈ fs, Faulty c e f) ∧
      ∃ err, (ownMethods c interface e inherited d fs found).result = .error err) ∨
    ((∀ f ∈ fs, ¬Faulty c e f) ∧ (ownMethods c interface e inherited d fs found).result =
      .ok (addAll found (fs.filterMap (verbMethod? c e inherited d)))) := by
  induction fs generalizing found with
  | nil => exact Or.inr ⟨by simp, rfl⟩
  | cons f rest ih =>
    rw [ownMethods, List.filterMap_cons, verbMethod?]
    cases hMethod : methodOf? c.table e.imports d f with
    | error fault =>
      exact Or.inl ⟨⟨f, List.mem_cons_self, fault, methodOf?_error_iff.mp hMethod⟩, _, rfl⟩
    | ok method =>
      -- A function that is not faulty leaves it to the others which of the two holds.
      have hSound : ¬Faulty c e f := by
        rintro ⟨fault, hFault⟩
        rw [methodOf?_error_iff.mp hFault] at hMethod
        cases hMethod
      have hExists : (∃ f' ∈ f :: rest, Faulty c e f') ↔ ∃ f' ∈ rest, Faulty c e f' := by
        simp [hSound]
      have hForall : (∀ f' ∈ f :: rest, ¬Faulty c e f') ↔ ∀ f' ∈ rest, ¬Faulty c e f' := by
        simp [hSound]
      rw [hExists, hForall]
      cases method with
      | none =>
        have hLog (x : Walk Unit) (hx : x.result = .ok ()) :
            (x >>= fun _ => ownMethods c interface e inherited d rest found).result =
              (ownMethods c interface e inherited d rest found).result := by
          rw [Logged.bind_of_ok hx]
        simp only
        split
        · rw [hLog _ rfl]
          exact ih found
        · exact ih found
      | some m =>
        have hName : (if inherited then m.anchored e.modulePath c.index.modules else m).name =
            m.name := by
          split <;> rfl
        have hAdd (more : List Method) : addAll found
            ((if inherited then m.anchored e.modulePath c.index.modules else m) :: more) =
            addAll (if found.any (·.name == m.name) then found else found ++
              [if inherited then m.anchored e.modulePath c.index.modules else m]) more := by
          rw [addAll, List.foldl_cons, hName]
          rfl
        simp only [hAdd]
        split
        · exact ih found
        · exact ih _

/-! ## All traits of a walk -/

theorem takeTrait_result (c : Context) (interface : String) (found : Collected) (e : TraitEntry) :
    ((∃ f ∈ e.declaration.functions, Faulty c e f) ∧
      ∃ err, (takeTrait c interface found e).result = .error err) ∨
    ((∀ f ∈ e.declaration.functions, ¬Faulty c e f) ∧ (takeTrait c interface found e).result = .ok
      { methods := addAll found.methods (e.declaration.functions.filterMap
          (verbMethod? c e (!found.visited.isEmpty)
            (if !found.visited.isEmpty then e.cratePath else e.declaration.name)))
        visited := found.visited ++ [e.cratePath]
        supertraits := if !found.visited.isEmpty then found.supertraits ++ [e.cratePath]
          else found.supertraits }) := by
  rw [takeTrait, Logged.result_bind]
  rcases ownMethods_result c interface e (!found.visited.isEmpty)
    (if !found.visited.isEmpty then e.cratePath else e.declaration.name)
    e.declaration.functions found.methods with ⟨hFaulty, err, hError⟩ | ⟨hSound, hOk⟩
  · refine Or.inl ⟨hFaulty, err, ?_⟩
    rw [hError]
    rfl
  · refine Or.inr ⟨hSound, ?_⟩
    rw [hOk]
    rfl

theorem takeAll_result (c : Context) (interface : String) (order : List TraitEntry)
    (found : Collected) (hVisited : found.visited.isEmpty = false) :
    ((∃ t ∈ order, ∃ f ∈ t.declaration.functions, Faulty c t f) ∧
      ∃ err, (order.foldlM (takeTrait c interface) found).result = .error err) ∨
    ((∀ t ∈ order, ∀ f ∈ t.declaration.functions, ¬Faulty c t f) ∧
      (order.foldlM (takeTrait c interface) found).result = .ok
        { methods := addAll found.methods (order.flatMap (inheritedMethods c))
          visited := found.visited ++ order.map (·.cratePath)
          supertraits := found.supertraits ++ order.map (·.cratePath) }) := by
  induction order generalizing found with
  | nil =>
    refine Or.inr ⟨by simp, ?_⟩
    simp [addAll]
  | cons t order ih =>
    rw [List.foldlM_cons, Logged.result_bind]
    rcases takeTrait_result c interface found t with
      ⟨hFaulty, err, hError⟩ | ⟨hSound, hOk⟩
    · refine Or.inl ⟨⟨t, List.mem_cons_self, hFaulty⟩, err, ?_⟩
      rw [hError]
      rfl
    · simp only [hOk, hVisited, Except.bind]
      rcases ih ⟨addAll found.methods (inheritedMethods c t), found.visited ++ [t.cratePath],
          found.supertraits ++ [t.cratePath]⟩ (by simp) with
        ⟨⟨t', ht', hFaulty⟩, hError⟩ | ⟨hRest, hOk'⟩
      · exact Or.inl ⟨⟨t', List.mem_cons_of_mem _ ht', hFaulty⟩, hError⟩
      · refine Or.inr ⟨List.forall_mem_cons.mpr ⟨hSound, hRest⟩, hOk'.trans ?_⟩
        rw [List.flatMap_cons, addAll_append]
        simp [inheritedMethods]

theorem takeService_result (c : Context) (interface : String) (e : TraitEntry)
    (order : List TraitEntry) :
    ((∃ t ∈ e :: order, ∃ f ∈ t.declaration.functions, Faulty c t f) ∧
      ∃ err, ((e :: order).foldlM (takeTrait c interface) .empty).result = .error err) ∨
    ((∀ t ∈ e :: order, ∀ f ∈ t.declaration.functions, ¬Faulty c t f) ∧
      ((e :: order).foldlM (takeTrait c interface) .empty).result = .ok
        { methods := firstByName (declaredMethods c e ++ order.flatMap (inheritedMethods c))
          visited := (e :: order).map (·.cratePath)
          supertraits := order.map (·.cratePath) }) := by
  rw [List.foldlM_cons, Logged.result_bind]
  rcases takeTrait_result c interface .empty e with
    ⟨hFaulty, err, hError⟩ | ⟨hSound, hOk⟩
  · refine Or.inl ⟨⟨e, List.mem_cons_self, hFaulty⟩, err, ?_⟩
    rw [hError]
    rfl
  · simp only [hOk, Except.bind]
    rcases takeAll_result c interface order
        ⟨addAll [] (declaredMethods c e), [e.cratePath], []⟩ rfl with
      ⟨⟨t, ht, hFaulty⟩, hError⟩ | ⟨hRest, hOk'⟩
    · exact Or.inl ⟨⟨t, List.mem_cons_of_mem _ ht, hFaulty⟩, hError⟩
    · refine Or.inr ⟨List.forall_mem_cons.mpr ⟨hSound, hRest⟩, hOk'.trans ?_⟩
      rw [← addAll_nil, addAll_append]
      rfl

/-! ## The service -/

/-- What a service comes to when `order` are its supertraits. -/
structure Gathers (c : Context) (e : TraitEntry) (order : List TraitEntry) (i : Interface) :
    Prop where
  supertraits : i.supertraits = order.map (·.cratePath)
  supertraits_nodup : i.supertraits.Nodup
  not_supertrait : e.cratePath ∉ i.supertraits
  methods : i.methods = firstByName (declaredMethods c e ++ order.flatMap (inheritedMethods c))
  declaredIn_own : ∀ m ∈ declaredMethods c e, m.declaredIn = e.declaration.name
  declaredIn_inherited : ∀ t ∈ order, ∀ m ∈ inheritedMethods c t, m.declaredIn = t.cratePath

/-- Extraction of a service takes the traits that it reaches, each once and in depth first order. -/
structure TakesHierarchy (c : Context) (e : TraitEntry) (order : List TraitEntry) : Prop where
  walk : DepthFirst.Walk (parents c.index) [] [e] (e :: order)
  reached : ∀ t, t ∈ e :: order ↔ Reaches (parents c.index) e t
  ends : ∀ fuel, c.index.traits.length < fuel → collect c e.declaration.name fuel e .empty =
    collect c e.declaration.name (c.index.traits.length + 1) e .empty
  fails : (∃ err, (interfaceOf c e).result = .error err) ↔
    ∃ t, Reaches (parents c.index) e t ∧ ∃ f ∈ t.declaration.functions, Faulty c t f
  gathers : ∀ i, (interfaceOf c e).result = .ok i → Gathers c e order i

theorem mem_inheritedMethods_declaredIn {t : TraitEntry} {m : Method}
    (h : m ∈ inheritedMethods c t) : m.declaredIn = t.cratePath := by
  obtain ⟨f, _, hMethod⟩ := List.mem_filterMap.mp h
  exact declaredIn_of_verbMethod? hMethod

theorem mem_declaredMethods_declaredIn {e : TraitEntry} {m : Method}
    (h : m ∈ declaredMethods c e) : m.declaredIn = e.declaration.name := by
  obtain ⟨f, _, hMethod⟩ := List.mem_filterMap.mp h
  exact declaredIn_of_verbMethod? hMethod

theorem collect_eq (interface : String)
    (hDistinct : (c.index.traits.map (·.cratePath)).Nodup) {e : TraitEntry}
    (hMem : e ∈ c.index.traits) {order : List TraitEntry}
    (h : DepthFirst.Walk (parents c.index) [] [e] order) {fuel : Nat}
    (hFuel : c.index.traits.length < fuel) :
    collect c interface fuel e .empty = order.foldlM (takeTrait c interface) .empty := by
  have hLeft : Left c.index.traits [] fuel :=
    (DepthFirst.left_length c.index.traits).mono (fun t ht => ht) (Nat.le_of_lt hFuel)
  have hFold := foldlM_collect_eq interface hDistinct h fuel .empty rfl (by simp)
    (List.forall_mem_singleton.mpr hMem) hLeft
  rw [List.foldlM_cons] at hFold
  rw [← hFold]
  exact (Logged.bind_pure _).symm

theorem interfaceOf_result {e : TraitEntry} (hPlain : e.declaration.hasGenerics = false) :
    (interfaceOf c e).result =
      ((collect c e.declaration.name (c.index.traits.length + 1) e .empty).result.map fun found =>
        { modulePath := e.modulePath
          name := e.declaration.name
          visibility := if e.declaration.isPublic then .everywhere else .crateOnly
          sourceFile := e.file
          methods := found.methods
          supertraits := found.supertraits }) := by
  rw [interfaceOf, hPlain]
  simp only [Bool.false_eq_true, if_false]
  rw [Logged.result_bind]
  rfl

theorem exists_collected {e : TraitEntry} {i : Interface} (h : (interfaceOf c e).result = .ok i) :
    ∃ found,
      (collect c e.declaration.name (c.index.traits.length + 1) e .empty).result = .ok found ∧
        i.modulePath = e.modulePath ∧ i.name = e.declaration.name ∧ i.methods = found.methods ∧
          i.supertraits = found.supertraits := by
  cases hPlain : e.declaration.hasGenerics with
  | true =>
    rw [interfaceOf, if_pos hPlain] at h
    cases h
  | false =>
    rw [interfaceOf_result hPlain] at h
    cases hCollect : (collect c e.declaration.name (c.index.traits.length + 1) e .empty).result with
    | error err =>
      rw [hCollect] at h
      cases h
    | ok found =>
      rw [hCollect] at h
      cases h
      exact ⟨found, rfl, rfl, rfl, rfl, rfl⟩

theorem exists_serviceWalk {index : TraitIndex} {e : TraitEntry} (hMem : e ∈ index.traits) :
    ∃ order, DepthFirst.Walk (parents index) [] [e] (e :: order) := by
  obtain ⟨walked, hWalk⟩ := DepthFirst.exists_walk (fun _ _ _ ht => parents_mem ht) _ [e] []
    (List.forall_mem_singleton.mpr hMem) (DepthFirst.left_length index.traits)
  obtain ⟨order, rfl⟩ := hWalk.exists_eq_cons
  exact ⟨order, hWalk⟩

theorem cratePaths_nodup {index : TraitIndex} {e : TraitEntry} {order : List TraitEntry}
    (hDistinct : (index.traits.map (·.cratePath)).Nodup) (hMem : e ∈ index.traits)
    (h : DepthFirst.Walk (parents index) [] [e] order) : (order.map (·.cratePath)).Nodup := by
  have hIndex : ∀ t ∈ order, t ∈ index.traits :=
    fun t ht => reaches_mem hMem ((h.mem_iff t).mp ht)
  exact h.nodup.map_on fun t ht t' ht' hEq =>
    List.inj_on_of_nodup_map hDistinct (hIndex t ht) (hIndex t' ht') hEq

/-- There is no interface if a trait of the walk has a faulty function, and one of all traits of the
walk otherwise. -/
theorem interfaceOf_cases (hDistinct : (c.index.traits.map (·.cratePath)).Nodup) {e : TraitEntry}
    (hMem : e ∈ c.index.traits) (hPlain : e.declaration.hasGenerics = false)
    {order : List TraitEntry} (h : DepthFirst.Walk (parents c.index) [] [e] (e :: order)) :
    ((∃ t ∈ e :: order, ∃ f ∈ t.declaration.functions, Faulty c t f) ∧
      ∃ err, (interfaceOf c e).result = .error err) ∨
    ((∀ t ∈ e :: order, ∀ f ∈ t.declaration.functions, ¬Faulty c t f) ∧
      ∃ i, (interfaceOf c e).result = .ok i ∧ Gathers c e order i) := by
  obtain ⟨hSelf, hNodup⟩ := List.nodup_cons.mp (cratePaths_nodup hDistinct hMem h)
  rw [interfaceOf_result hPlain, collect_eq _ hDistinct hMem h (Nat.lt_succ_self _)]
  rcases takeService_result c e.declaration.name e order with
    ⟨hFaulty, err, hError⟩ | ⟨hSound, hOk⟩
  · refine Or.inl ⟨hFaulty, err, ?_⟩
    rw [hError]
    rfl
  · rw [hOk]
    exact Or.inr ⟨hSound, _, rfl, rfl, hNodup, hSelf, rfl, fun _ => mem_declaredMethods_declaredIn,
      fun _ _ _ => mem_inheritedMethods_declaredIn⟩

theorem existsUnique_takesHierarchy (hDistinct : (c.index.traits.map (·.cratePath)).Nodup)
    {e : TraitEntry} (hMem : e ∈ c.index.traits) (hPlain : e.declaration.hasGenerics = false) :
    ∃! order, TakesHierarchy c e order := by
  obtain ⟨order, hWalk⟩ := exists_serviceWalk hMem
  have hCases := interfaceOf_cases hDistinct hMem hPlain hWalk
  refine ⟨order, ⟨hWalk, hWalk.mem_iff, fun fuel hFuel => ?_, ?_, fun i hi => ?_⟩,
    fun order' h => (List.cons.inj (h.walk.unique hWalk)).2⟩
  · rw [collect_eq _ hDistinct hMem hWalk hFuel,
      collect_eq _ hDistinct hMem hWalk (Nat.lt_succ_self _)]
  · rcases hCases with ⟨⟨t, ht, hFaulty⟩, hError⟩ | ⟨hSound, i, hOk, _⟩
    · exact iff_of_true hError ⟨t, (hWalk.mem_iff t).mp ht, hFaulty⟩
    · refine iff_of_false ?_ ?_
      · rintro ⟨err, hError⟩
        rw [hOk] at hError
        cases hError
      · rintro ⟨t, ht, f, hf, hFaulty⟩
        exact hSound t ((hWalk.mem_iff t).mpr ht) f hf hFaulty
  · rcases hCases with ⟨_, err, hError⟩ | ⟨_, i', hOk, hGathers⟩
    · rw [hError] at hi
      cases hi
    · rw [hOk] at hi
      cases hi
      exact hGathers

theorem interfaceOf_takesHierarchy (table : AnnotationTable) (files : List SourceFile)
    (hDistinct : ((TraitIndex.ofFiles files).traits.map (·.cratePath)).Nodup) (e : TraitEntry)
    (hMem : e ∈ (TraitIndex.ofFiles files).traits) (hPlain : e.declaration.hasGenerics = false) :
    ∃! order, TakesHierarchy ⟨table, TraitIndex.ofFiles files⟩ e order :=
  existsUnique_takesHierarchy (c := ⟨table, TraitIndex.ofFiles files⟩) hDistinct hMem hPlain

def getTrait (name : String) (bounds methods : List String) : Source.TraitDeclaration where
  attributes := [⟨⟨false, ["api", "api_service"]⟩, .none⟩]
  isPublic := true
  name
  hasGenerics := false
  supertraits := bounds.map fun bound => ⟨false, [.mk bound .none]⟩
  functions := methods.map fun method =>
    { attributes := [⟨⟨false, ["api", "get"]⟩, .value (some ("/" ++ method))⟩]
      name := method
      isAsync := true
      hasGenerics := false
      parameters := [.receiver true false]
      output := none
      hasBody := false }

/-- Supertraits that meet in `Shared`, which leads back to the service. -/
def meetingFiles : List SourceFile :=
  [⟨"src/docs.rs", ["docs"],
    [.trait (getTrait "DocsApi" ["DocsApi", "Reading", "Writing"] ["list", "read"]),
      .trait (getTrait "Shared" ["DocsApi"] ["ping", "list"]),
      .trait (getTrait "Writing" ["Shared"] ["draft", "ping"]),
      .trait (getTrait "Reading" ["Shared", "Elsewhere"] ["read", "count"])]⟩]

def meetingService : TraitEntry :=
  { declaration := getTrait "DocsApi" ["DocsApi", "Reading", "Writing"] ["list", "read"]
    file := "src/docs.rs"
    modulePath := ["docs"]
    imports := .empty }

theorem meetingService_mem : meetingService ∈ (TraitIndex.ofFiles meetingFiles).traits :=
  List.mem_cons_self

theorem meetingFiles_distinct :
    ((TraitIndex.ofFiles meetingFiles).traits.map (·.cratePath)).Nodup := by
  decide +kernel

def meetingContext : Context := ⟨.ofNamespace "api", TraitIndex.ofFiles meetingFiles⟩

theorem meetingService_takesHierarchy :
    ((interfaceOf meetingContext meetingService).result.toOption.map fun i =>
        (i.supertraits, i.methods.map (·.name))) =
      some (["crate::docs::Reading", "crate::docs::Shared", "crate::docs::Writing"],
        ["list", "read", "count", "ping", "draft"]) ∧
      ∃! order, TakesHierarchy meetingContext meetingService order :=
  ⟨by decide +kernel, interfaceOf_takesHierarchy (.ofNamespace "api") meetingFiles
    meetingFiles_distinct meetingService meetingService_mem rfl⟩

end TraitClient.Extraction
