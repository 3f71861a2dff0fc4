import TraitClient.Proofs.ServiceHierarchy

/-!
# The order of the files

Files share one index of traits.  What is looked up in it does not depend on where its files stand, as
long as no two traits have one crate path, so that each file gives the same services wherever it is.
-/
namespace TraitClient

/-! ## Lookups that agree -/

namespace Extraction

/-- Two indices in which the same is found, though perhaps in another place. -/
structure TraitIndex.Alike (a b : TraitIndex) : Prop where
  finds : ∀ path, a.find? path = b.find? path
  modules : ∀ path, a.modules.contains path = b.modules.contains path
  size : a.traits.length = b.traits.length

end Extraction

section Anchors

variable {modules modules' : List (List String)}

theorem anchorPath_congr (h : ∀ path, modules.contains path = modules'.contains path)
    (qualified : String) (modulePath : List String) :
    anchorPath qualified modulePath modules = anchorPath qualified modulePath modules' := by
  simp only [anchorPath, h]

mutual

theorem TypeRef.anchored_congr (h : ∀ path, modules.contains path = modules'.contains path)
    (modulePath : List String) (t : TypeRef) :
    t.anchored modulePath modules = t.anchored modulePath modules' := by
  cases t with
  | mk qualifiedName path arguments nullable byRef lifetime =>
    rw [TypeRef.anchored, TypeRef.anchored, anchorPath_congr h,
      TypeRef.anchoredAll_congr h modulePath arguments]

theorem TypeRef.anchoredAll_congr (h : ∀ path, modules.contains path = modules'.contains path)
    (modulePath : List String) (ts : List TypeRef) :
    TypeRef.anchoredAll modulePath modules ts = TypeRef.anchoredAll modulePath modules' ts := by
  cases ts with
  | nil => rfl
  | cons t ts =>
    rw [TypeRef.anchoredAll, TypeRef.anchoredAll, TypeRef.anchored_congr h modulePath t,
      TypeRef.anchoredAll_congr h modulePath ts]

end

theorem Method.anchored_congr (h : ∀ path, modules.contains path = modules'.contains path)
    (m : Method) (modulePath : List String) :
    m.anchored modulePath modules = m.anchored modulePath modules' := by
  simp only [Method.anchored, TypeRef.anchored_congr h]

end Anchors

namespace Extraction

section Walks

variable {a b : TraitIndex} (h : a.Alike b) (table : AnnotationTable)

include h

theorem supertrait?_congr (e : TraitEntry) (bound : Source.PlainPath) :
    supertrait? a e bound = supertrait? b e bound := by
  simp only [supertrait?, h.finds, anchorPath_congr h.modules]

theorem ownMethods_congr (interface : String) (e : TraitEntry) (inherited : Bool)
    (declaredIn : String) (functions : List Source.TraitFunction) (found : List Method) :
    ownMethods ⟨table, a⟩ interface e inherited declaredIn functions found =
      ownMethods ⟨table, b⟩ interface e inherited declaredIn functions found := by
  induction functions generalizing found with
  | nil => rfl
  | cons f rest ih => simp only [ownMethods, ih, Method.anchored_congr h.modules]

theorem visitBounds_congr {e : TraitEntry} {visit visit' : TraitEntry → Collected → Walk Collected}
    (hVisit : ∀ parent found, visit parent found = visit' parent found)
    (bounds : List Source.PlainPath) (found : Collected) :
    visitBounds a e visit bounds found = visitBounds b e visit' bounds found := by
  induction bounds generalizing found with
  | nil => rfl
  | cons bound rest ih => simp only [visitBounds, ih, hVisit, supertrait?_congr h]

theorem collect_congr (interface : String) (fuel : Nat) (e : TraitEntry) (found : Collected) :
    collect ⟨table, a⟩ interface fuel e found = collect ⟨table, b⟩ interface fuel e found := by
  induction fuel generalizing e found with
  | zero => rfl
  | succ fuel ih =>
    simp only [collect, ownMethods_congr h]
    split
    · rfl
    · exact Logged.bind_congr_result fun methods _ => visitBounds_congr h ih _ _

/-- An interface depends on the index only through what is found in it. -/
theorem interfaceOf_congr (e : TraitEntry) :
    interfaceOf ⟨table, a⟩ e = interfaceOf ⟨table, b⟩ e := by
  simp only [interfaceOf, collect_congr h, h.size]

end Walks

/-! ## Files in another order -/

namespace TraitIndex

theorem ofFiles_eq (files : List SourceFile) :
    ofFiles files = ⟨files.flatMap fun f => (ofFile f).traits,
      files.flatMap fun f => (ofFile f).modules⟩ := by
  have hFold (index : TraitIndex) : files.foldl (fun index f => index ++ ofFile f) index =
      ⟨index.traits ++ files.flatMap fun f => (ofFile f).traits,
        index.modules ++ files.flatMap fun f => (ofFile f).modules⟩ := by
    induction files generalizing index with
    | nil => simp
    | cons f files ih =>
      rw [List.foldl_cons, ih]
      change (⟨(index.traits ++ (ofFile f).traits) ++ _,
        (index.modules ++ (ofFile f).modules) ++ _⟩ : TraitIndex) = _
      simp only [List.flatMap_cons, List.append_assoc]
  exact hFold empty

theorem find?_eq_some_iff {index : TraitIndex} (hDistinct : (index.traits.map (·.cratePath)).Nodup)
    {path : String} {e : TraitEntry} :
    index.find? path = some e ↔ e ∈ index.traits ∧ e.cratePath = path := by
  constructor
  · intro hFound
    exact ⟨List.mem_of_find?_eq_some hFound,
      beq_iff_eq.mp (List.find?_some (p := fun e : TraitEntry => e.cratePath == path) hFound)⟩
  · rintro ⟨hMem, rfl⟩
    exact find?_of_distinct hDistinct (fun _ _ => beq_iff_eq) hMem

theorem ofFiles_alike {files files' : List SourceFile} (hPerm : files'.Perm files)
    (hDistinct : ((ofFiles files).traits.map (·.cratePath)).Nodup) :
    (ofFiles files').Alike (ofFiles files) := by
  have hTraits : (ofFiles files').traits.Perm (ofFiles files).traits := by
    rw [ofFiles_eq, ofFiles_eq]
    exact hPerm.flatMap_right _
  have hDistinct' : ((ofFiles files').traits.map (·.cratePath)).Nodup :=
    (hTraits.map _).nodup_iff.mpr hDistinct
  refine ⟨fun path => Option.ext fun e => ?_, fun path => ?_, hTraits.length_eq⟩
  · rw [find?_eq_some_iff hDistinct', find?_eq_some_iff hDistinct, hTraits.mem_iff]
  · have hModules : (ofFiles files').modules.Perm (ofFiles files).modules := by
      rw [ofFiles_eq, ofFiles_eq]
      exact hPerm.flatMap_right _
    exact Bool.eq_iff_iff.mpr (by simp only [List.contains_iff_mem, hModules.mem_iff])

end TraitIndex

/-- The services of one file, among all the files that they may inherit from. -/
def servicesAmong (table : AnnotationTable) (files : List SourceFile) (f : SourceFile) :
    List (Logged GenerationError Interface) :=
  ((TraitIndex.ofFile f).traits.filter (isService table)).map
    (interfaceOf ⟨table, .ofFiles files⟩)

theorem services_eq_flatMap (table : AnnotationTable) (files : List SourceFile) :
    services table files = files.flatMap (servicesAmong table files) := by
  have hTraits : (TraitIndex.ofFiles files).traits =
      files.flatMap fun f => (TraitIndex.ofFile f).traits := by
    rw [TraitIndex.ofFiles_eq]
  rw [services, hTraits, List.filter_flatMap, List.map_flatMap]
  rfl

/-- Files in another order give the same services with the same results, file by file. -/
theorem services_permuted (table : AnnotationTable) {files files' : List SourceFile}
    (hDistinct : ((TraitIndex.ofFiles files).traits.map (·.cratePath)).Nodup)
    (hPerm : files'.Perm files) :
    (∀ e, interfaceOf ⟨table, .ofFiles files'⟩ e = interfaceOf ⟨table, .ofFiles files⟩ e) ∧
      services table files = files.flatMap (servicesAmong table files) ∧
      services table files' = files'.flatMap (servicesAmong table files) := by
  have hSame := interfaceOf_congr (TraitIndex.ofFiles_alike hPerm hDistinct) table
  refine ⟨hSame, services_eq_flatMap table files, ?_⟩
  rw [services_eq_flatMap]
  refine congrArg (files'.flatMap ·) (funext fun f => ?_)
  exact List.map_congr_left fun e _ => hSame e

/-- A service before the file of the trait that it inherits from. -/
def inheritingFiles : List SourceFile :=
  [⟨"src/docs.rs", ["docs"],
      [.use false (.path "crate" (.path "base" (.name "Base"))),
        .trait (getTrait "DocsApi" ["Base"] ["list"])]⟩,
    ⟨"src/base.rs", ["base"], [.trait (getTrait "Base" [] ["read"])]⟩]

theorem inheritingFiles_permuted :
    (services (.ofNamespace "api") inheritingFiles).map (fun service =>
        service.result.toOption.map fun i => (i.name, i.methods.map (·.name))) =
      [some ("DocsApi", ["list", "read"]), some ("Base", ["read"])] ∧
    services (.ofNamespace "api") inheritingFiles.reverse =
      inheritingFiles.reverse.flatMap (servicesAmong (.ofNamespace "api") inheritingFiles) := by
  have hDistinct : ((TraitIndex.ofFiles inheritingFiles).traits.map (·.cratePath)).Nodup := by
    decide +kernel
  exact ⟨by decide +kernel,
    (services_permuted (.ofNamespace "api") hDistinct (List.reverse_perm _)).2.2⟩

end Extraction
end TraitClient
