import TraitClient.Proofs.DeclaredEndpoints
import TraitClient.Proofs.PathText

/-!
# Blocks of a generated unit

The service trait and its supertraits have one block each.  The trait that declares a method is one of
them, so that no block is added for it, and the blocks share the methods out.  The name of a service
is an identifier, as every name of a parsed file is, and no supertrait is spelled like one.
-/
namespace TraitClient.Extraction

open Emission (TraitGroup traitGroups)

variable {c : Context} {e : TraitEntry} {i : Interface}

/-! ## Traits of an extracted interface -/

/-- A crate path has a separator, which no identifier has. -/
theorem ne_cratePath {name : String} (h : (Code.Word.ident name).isToken = true)
    (modulePath : List String) (last : String) : name ≠ cratePath modulePath last := by
  rintro rfl
  apply (Code.unbroken_of_isToken h).colon
  have hRest : modulePath ++ [last] ≠ [] := by simp
  obtain ⟨second, rest, hCons⟩ := List.exists_cons_of_ne_nil hRest
  have hPath : cratePath modulePath last = joinPath ("crate" :: second :: rest) := by
    rw [← hCons]
    rfl
  rw [hPath, joinPath_cons_cons]
  simp

theorem Gathers.declaredIn_mem {order : List TraitEntry} (h : Gathers c e order i)
    (hName : i.name = e.declaration.name) :
    ∀ m ∈ i.methods, m.declaredIn ∈ i.name :: i.supertraits := by
  intro m hm
  rw [h.methods] at hm
  rw [hName, h.supertraits]
  rcases List.mem_append.mp (firstByName_subset _ m hm) with hOwn | hInherited
  · rw [h.declaredIn_own m hOwn]
    exact List.mem_cons_self
  · obtain ⟨t, ht, hMethod⟩ := List.mem_flatMap.mp hInherited
    rw [h.declaredIn_inherited t ht m hMethod]
    exact List.mem_cons_of_mem _ (List.mem_map_of_mem ht)

theorem Gathers.traits_nodup {order : List TraitEntry} (h : Gathers c e order i)
    (hName : i.name = e.declaration.name)
    (hToken : (Code.Word.ident e.declaration.name).isToken = true) :
    (i.name :: i.supertraits).Nodup := by
  rw [List.nodup_cons]
  refine ⟨?_, h.supertraits_nodup⟩
  rw [hName, h.supertraits]
  intro hMem
  obtain ⟨t, _, hPath⟩ := List.mem_map.mp hMem
  exact ne_cratePath hToken _ _ hPath.symm

/-! ## Groups -/

theorem groups_eq {groups : List TraitGroup} (h : (groups.map (·.trait)).Nodup) :
    groups = (groups.map (·.trait)).map fun trait => ⟨trait, block groups trait⟩ := by
  rw [List.map_map]
  refine (List.map_id groups).symm.trans (List.map_congr_left ?_)
  intro g hg
  have hFound : groups.find? (·.trait == g.trait) = some g :=
    find?_of_distinct h (fun _ _ => beq_iff_eq) hg
  simp [block, hFound]

theorem flatMap_implemented_perm {traits : List String} (hNodup : traits.Nodup)
    (methods : List (Method × BodyEncoding)) (h : ∀ m ∈ methods, m.1.declaredIn ∈ traits) :
    (traits.flatMap (implemented methods)).Perm
      (methods.map fun m => MethodBody.function m.1 m.2) := by
  induction traits generalizing methods with
  | nil =>
    have hNone : methods = [] := List.eq_nil_iff_forall_not_mem.mpr fun m hm => nomatch h m hm
    rw [hNone]
    exact .nil
  | cons trait traits ih =>
    obtain ⟨hTrait, hTraits⟩ := List.nodup_cons.mp hNodup
    -- The first trait has its methods, so that all others have theirs among what is left.
    have hOthers : ∀ m ∈ methods.filter (!·.1.declaredIn == trait), m.1.declaredIn ∈ traits := by
      intro m hm
      obtain ⟨hMem, hOther⟩ := List.mem_filter.mp hm
      refine (List.mem_cons.mp (h m hMem)).resolve_left ?_
      simpa using hOther
    have hSame : traits.flatMap (implemented methods) =
        traits.flatMap (implemented (methods.filter (!·.1.declaredIn == trait))) := by
      apply List.flatMap_congr
      intro other hMem
      have hNe : other ≠ trait := fun hEq => hTrait (hEq ▸ hMem)
      rw [implemented, implemented, List.filter_filter]
      congr 1
      apply List.filter_congr
      intro m _
      by_cases hOther : m.1.declaredIn = other
      · simp [hOther, hNe]
      · simp [hOther]
    rw [List.flatMap_cons, hSame]
    have hSplit := (List.filter_append_perm (·.1.declaredIn == trait) methods).map
      fun m => MethodBody.function m.1 m.2
    rw [List.map_append] at hSplit
    exact ((ih hTraits _ hOthers).append_left _).trans hSplit

/-! ## Signatures -/

/-- A function of an implementation is called like its method, takes and returns the same. -/
structure HasSignature (m : Method) (f : Code.Function) : Prop where
  name : f.name = m.name
  receiver : f.takesSelf = true
  async : f.isAsync = true
  parameters : f.parameters = m.parameters.map fun p => (p.name, .model p.type)
  output : f.output = .model m.returnType

theorem hasSignature_function (m : Method) (encoding : BodyEncoding) :
    HasSignature m (MethodBody.function m encoding) := ⟨rfl, rfl, rfl, rfl, rfl⟩

theorem implemented_signatures {methods : List Method} {encodings : List BodyEncoding}
    (hLength : encodings.length = methods.length) (trait : String) :
    List.Forall₂ HasSignature (methods.filter (·.declaredIn == trait))
      (implemented (methods.zip encodings) trait) := by
  induction methods generalizing encodings with
  | nil => exact .nil
  | cons m methods ih =>
    match encodings, hLength with
    | encoding :: encodings, hLength =>
      have hRest := ih (Nat.succ_inj.mp hLength)
      rw [implemented] at hRest ⊢
      by_cases hTrait : m.declaredIn = trait
      · rw [List.filter_cons_of_pos (by simpa using hTrait), List.zip_cons_cons,
          List.filter_cons_of_pos (by simpa using hTrait)]
        exact .cons (hasSignature_function m encoding) hRest
      · rw [List.filter_cons_of_neg (by simpa using hTrait), List.zip_cons_cons,
          List.filter_cons_of_neg (by simpa using hTrait)]
        exact hRest

/-! ## Blocks -/

def isTraitBlock : Code.Item → Bool
  | .implementation .. => true
  | _ => false

theorem filter_items (i : Interface) (encodings : List BodyEncoding) :
    (Emission.items i encodings).filter isTraitBlock =
      (traitGroups i encodings).map fun g => .implementation g.trait i.implName g.functions := by
  have hAll : ((traitGroups i encodings).map fun g =>
      Code.Item.implementation g.trait i.implName g.functions).filter isTraitBlock =
      (traitGroups i encodings).map fun g => .implementation g.trait i.implName g.functions := by
    rw [List.filter_eq_self]
    intro item hItem
    obtain ⟨g, _, rfl⟩ := List.mem_map.mp hItem
    rfl
  have hStruct : isTraitBlock (Emission.structItem i) = false := rfl
  have hInherent : isTraitBlock (Emission.inherentItem i) = false := rfl
  have hFactory : isTraitBlock (Emission.factoryItem i) = false := rfl
  simp [Emission.items, hStruct, hInherent, hFactory, hAll]

/-- One block for the service trait and one for each supertrait, in this order.  A block has the
functions of the methods that its trait declares, in the order of the interface, each with the
signature of its method and of its own encoding, and all blocks together have every function once. -/
structure PartitionsMethods (i : Interface) (encodings : List BodyEncoding) : Prop where
  traits : (i.name :: i.supertraits).Nodup
  blocks : (Emission.items i encodings).filter isTraitBlock =
    (i.name :: i.supertraits).map fun trait =>
      .implementation trait i.implName (implemented (i.methods.zip encodings) trait)
  declared : ∀ m ∈ i.methods, m.declaredIn ∈ i.name :: i.supertraits
  signatures : ∀ trait, List.Forall₂ HasSignature (i.methods.filter (·.declaredIn == trait))
    (implemented (i.methods.zip encodings) trait)
  every_method : (i.methods.zip encodings).map (·.1) = i.methods
  every_encoding : (i.methods.zip encodings).map (·.2) = encodings
  once : ((i.name :: i.supertraits).flatMap (implemented (i.methods.zip encodings))).Perm
    ((i.methods.zip encodings).map fun m => MethodBody.function m.1 m.2)

theorem interfaceOf_partitionsMethods (c : Context) (e : TraitEntry)
    (hName : (Code.Word.ident e.declaration.name).isToken = true) {i : Interface}
    (h : (interfaceOf c e).result = .ok i) (encodings : List BodyEncoding)
    (hLength : encodings.length = i.methods.length) : PartitionsMethods i encodings := by
  obtain ⟨hSame, order, hGathers, _, _⟩ := interfaceOf_gathers h
  have hNodup := hGathers.traits_nodup hSame hName
  have hDeclared := hGathers.declaredIn_mem hSame
  obtain ⟨hTraits, hBlocks⟩ := traitGroups_blocks encodings hDeclared
  constructor
  · exact hNodup
  · have hGroups : traitGroups i encodings = (i.name :: i.supertraits).map fun trait =>
        ⟨trait, implemented (i.methods.zip encodings) trait⟩ := by
      have hDistinct : ((traitGroups i encodings).map (·.trait)).Nodup := by
        rw [hTraits]
        exact hNodup
      rw [groups_eq hDistinct, hTraits, funext hBlocks]
    rw [filter_items, hGroups, List.map_map]
    rfl
  · exact hDeclared
  · exact implemented_signatures hLength
  · exact List.map_fst_zip (Nat.le_of_eq hLength.symm)
  · exact List.map_snd_zip (Nat.le_of_eq hLength)
  · have hMem : ∀ m ∈ i.methods.zip encodings, m.1.declaredIn ∈ i.name :: i.supertraits :=
      fun m hm => hDeclared m.1 (List.of_mem_zip hm).1
    exact flatMap_implemented_perm hNodup _ hMem

theorem meetingService_partitionsMethods :
    ∃ i, (interfaceOf meetingContext meetingService).result = .ok i ∧
      ∃ encodings, encodings.length = i.methods.length ∧ PartitionsMethods i encodings := by
  obtain ⟨i, hResult, _⟩ := meetingService_result
  have hLength : (List.replicate i.methods.length BodyEncoding.noBody).length = i.methods.length :=
    List.length_replicate
  exact ⟨i, hResult, _, hLength,
    interfaceOf_partitionsMethods meetingContext meetingService (by decide) hResult _ hLength⟩

end TraitClient.Extraction
