import TraitClient.Proofs.ServiceNames
import TraitClient.Proofs.SpelledTypes
import TraitClient.Proofs.TraitBlocks

/-!
# Arguments of supertraits

A bound may give arguments to the trait that it names.  The block that implements the trait is headed
by the path of the trait alone, so that it carries the arguments of the bound if there are none.
-/
namespace TraitClient

open Source (TraitBound)
open Source.Parser
open Code (IsSegment)

namespace Source

/-- Whether arguments are written and not left empty. -/
def TypeArguments.areGiven : TypeArguments → Bool
  | .none => false
  | .angle arguments => !arguments.isEmpty
  | .parenthesized => true

/-- The arguments that the segments of a path give. -/
def givenArguments (segments : List TypeSegment) : List TypeArguments :=
  (segments.map (·.arguments)).filter (·.areGiven)

theorem givenArguments_bare (names : List String) :
    givenArguments (names.map bareSegment) = [] := by
  rw [givenArguments, List.filter_eq_nil_iff, List.map_map]
  rintro _ hArguments
  obtain ⟨name, _, rfl⟩ := List.mem_map.mp hArguments
  exact Bool.false_ne_true

theorem parseTypeTokens?_path {names : List String} (hNonempty : names ≠ [])
    (hSegments : ∀ s ∈ names, IsSegment s) (hHead : names.head? ≠ some "try") :
    ∃ tokens, parseTypeTokens? (Code.pathTokens (joinPath names)) =
      some (.path tokens false (names.map bareSegment)) := by
  obtain ⟨front, last, rfl⟩ : ∃ front last, names = front ++ [last] :=
    ⟨_, _, (List.dropLast_append_getLast hNonempty).symm⟩
  have hTokens : Code.pathTokens (joinPath (front ++ [last])) = pathStart false (front ++ [last]) := by
    rw [TypeRef.pathTokens_eq,
      Code.isGlobalPath_joinPath hNonempty fun s hs => (hSegments s hs).unbroken,
      Code.pathSegments_joinPath hNonempty fun s hs => (hSegments s hs).unbroken]
  have hReads : ReadsType (Grammar.ofTokens (pathStart false (front ++ [last]))) true
      (pathStart false (front ++ [last])) _ := readsType_bare hSegments (.inr hHead) true
  obtain ⟨e, hParse, tokens, rfl⟩ := hReads.parse
  refine ⟨tokens, ?_⟩
  rw [hTokens, hParse, List.map_append]
  rfl

end Source
namespace Extraction

open DepthFirst (Left)

variable {c : Context} {interface : String}

/-! ## Walks are closed -/

/-- All traits that the bounds of a trait name have been visited. -/
def Closed (index : TraitIndex) (visited : List String) (t : TraitEntry) : Prop :=
  ∀ parent ∈ parents index t, parent.cratePath ∈ visited

theorem Closed.mono {index : TraitIndex} {visited visited' : List String} {t : TraitEntry}
    (h : Closed index visited t) (hSubset : visited ⊆ visited') : Closed index visited' t :=
  fun parent hParent => hSubset (h parent hParent)

/-- A walk that took listed traits, and the traits of their bounds with them. -/
structure TakesClosed (c : Context) (interface : String) (found found' : Collected)
    (order : List TraitEntry) : Prop where
  takes : Takes c interface found found' order
  listed : ∀ t ∈ order, Listed c.index t
  closed : ∀ t ∈ order, Closed c.index found'.visited t

theorem TakesClosed.nil (found : Collected) : TakesClosed c interface found found [] :=
  ⟨.nil found, fun _ ht => absurd ht List.not_mem_nil, fun _ ht => absurd ht List.not_mem_nil⟩

theorem Takes.visited_subset {found found' : Collected} {order : List TraitEntry}
    (h : Takes c interface found found' order) : found.visited ⊆ found'.visited := by
  rw [takeAll_visited h.run]
  exact List.subset_append_left _ _

theorem TakesClosed.append {found found' found'' : Collected} {order order' : List TraitEntry}
    (h : TakesClosed c interface found found' order)
    (h' : TakesClosed c interface found' found'' order') :
    TakesClosed c interface found found'' (order ++ order') := by
  refine ⟨h.takes.append h'.takes, List.forall_mem_append.mpr ⟨h.listed, h'.listed⟩,
    List.forall_mem_append.mpr ⟨fun t ht => ?_, h'.closed⟩⟩
  exact (h.closed t ht).mono h'.takes.visited_subset

theorem foldlM_takesClosed {fuel : Nat}
    (hVisit : ∀ t found found', Listed c.index t →
      Left (c.index.traits.map (·.cratePath)) found.visited fuel →
      (collect c interface fuel t found).result = .ok found' →
      t.cratePath ∈ found'.visited ∧ ∃ order, TakesClosed c interface found found' order)
    {ts : List TraitEntry} (hListed : ∀ t ∈ ts, Listed c.index t) {found found' : Collected}
    (hLeft : Left (c.index.traits.map (·.cratePath)) found.visited fuel)
    (h : (ts.foldlM (fun found t => collect c interface fuel t found) found).result = .ok found') :
    (∀ t ∈ ts, t.cratePath ∈ found'.visited) ∧
      ∃ order, TakesClosed c interface found found' order := by
  induction ts generalizing found with
  | nil =>
    cases h
    exact ⟨fun _ ht => absurd ht List.not_mem_nil, [], .nil _⟩
  | cons t ts ih =>
    obtain ⟨hHead, hRest⟩ := List.forall_mem_cons.mp hListed
    rw [List.foldlM_cons] at h
    obtain ⟨next, hFirst, hThen⟩ := Logged.bind_result_eq_ok h
    obtain ⟨hVisited, front, hFront⟩ := hVisit t found next hHead hLeft hFirst
    have hLeftRest := hLeft.mono hFront.takes.visited_subset (Nat.le_refl _)
    obtain ⟨hAll, back, hBack⟩ := ih hRest hLeftRest hThen
    exact ⟨List.forall_mem_cons.mpr ⟨hBack.takes.visited_subset hVisited, hAll⟩,
      front ++ back, hFront.append hBack⟩

theorem takesClosed_cons {e : TraitEntry} {found next found' : Collected} {below : List TraitEntry}
    (hNew : e.cratePath ∉ found.visited)
    (hTake : (takeTrait c interface found e).result = .ok next)
    (hParents : Closed c.index found'.visited e)
    (hBelow : TakesClosed c interface next found' below) :
    Takes c interface found found' (e :: below) ∧
      ∀ t ∈ e :: below, Closed c.index found'.visited t :=
  ⟨(Takes.singleton hNew hTake).append hBelow.takes,
    List.forall_mem_cons.mpr ⟨hParents, hBelow.closed⟩⟩

/-- The fuel is enough for all paths that have not been visited, so that it is used up at a visited
trait only. -/
theorem collect_takesClosed (fuel : Nat) (e : TraitEntry) (found found' : Collected)
    (he : Listed c.index e)
    (hLeft : Left (c.index.traits.map (·.cratePath)) found.visited fuel)
    (h : (collect c interface fuel e found).result = .ok found') :
    e.cratePath ∈ found'.visited ∧ ∃ order, TakesClosed c interface found found' order := by
  induction fuel generalizing e found found' with
  | zero =>
    have hVisited : e.cratePath ∈ found.visited := by
      -- As long as a trait is not visited there is fuel for it.
      by_contra hNew
      obtain ⟨k, hk, _⟩ := hLeft.take (List.mem_map_of_mem he.mem) hNew
      cases hk
    cases h
    exact ⟨hVisited, [], .nil _⟩
  | succ fuel ih =>
    by_cases hVisited : e.cratePath ∈ found.visited
    · rw [collect_of_visited hVisited] at h
      cases h
      exact ⟨hVisited, [], .nil _⟩
    rw [collect_of_new hVisited] at h
    obtain ⟨next, hTake, hThen⟩ := Logged.bind_result_eq_ok h
    obtain ⟨k, hk, hLeftBelow⟩ := hLeft.take (List.mem_map_of_mem he.mem) hVisited
    obtain rfl := Nat.succ.inj hk
    rw [← takeTrait_visited hTake] at hLeftBelow
    obtain ⟨hParents, below, hBelow⟩ :=
      foldlM_takesClosed ih (fun t ht => parents_listed ht) hLeftBelow hThen
    obtain ⟨hTakes, hClosed⟩ := takesClosed_cons hVisited hTake hParents hBelow
    refine ⟨?_, e :: below, hTakes, List.forall_mem_cons.mpr ⟨he, hBelow.listed⟩, hClosed⟩
    rw [takeAll_visited hTakes.run]
    simp

/-- The supertraits of an interface are listed traits, and with the service they are closed. -/
theorem interfaceOf_closed {e : TraitEntry} {i : Interface} (h : (interfaceOf c e).result = .ok i) :
    ∃ order, i.supertraits = order.map (·.cratePath) ∧ (∀ t ∈ order, Listed c.index t) ∧
      ∀ t ∈ e :: order, Closed c.index (e.cratePath :: i.supertraits) t := by
  obtain ⟨found, hCollect, _, _, hMethods, hSupertraits⟩ := exists_collected h
  have hNew : e.cratePath ∉ Collected.empty.visited := List.not_mem_nil
  rw [collect_of_new hNew] at hCollect
  obtain ⟨next, hTake, hRest⟩ := Logged.bind_result_eq_ok hCollect
  have hLeft : Left (c.index.traits.map (·.cratePath)) next.visited c.index.traits.length :=
    (DepthFirst.left_length _).mono (fun _ hPath => absurd hPath List.not_mem_nil)
      (List.length_map _).le
  obtain ⟨hParents, order, hOrder⟩ :=
    foldlM_takesClosed (collect_takesClosed _) (fun t ht => parents_listed ht) hLeft hRest
  obtain ⟨hTakes, hClosed⟩ := takesClosed_cons hNew hTake hParents hOrder
  obtain ⟨hGathers, _⟩ := hTakes.gathers hMethods hSupertraits
  have hVisited : found.visited = e.cratePath :: i.supertraits := by
    rw [takeAll_visited hTakes.run, hGathers.supertraits]
    rfl
  exact ⟨order, hGathers.supertraits, hOrder.listed, hVisited ▸ hClosed⟩

/-! ## Bounds of a hierarchy -/

/-- The traits whose bounds are met on the walk from a service.  Of the path of the service only the
service itself is taken. -/
inductive Walked (index : TraitIndex) (e : TraitEntry) : TraitEntry → Prop
  | service : Walked index e e
  | supertrait {t parent : TraitEntry} (h : Walked index e t) (hParent : parent ∈ parents index t)
      (hOther : parent.cratePath ≠ e.cratePath) : Walked index e parent

/-- A bound that is met on the walk from a service and names a scanned trait. -/
inductive MeetsBound (index : TraitIndex) (e : TraitEntry) (b : TraitBound) (parent : TraitEntry) :
    Prop
  | mk {t : TraitEntry} (walked : Walked index e t) (bound : b ∈ t.declaration.supertraits)
      (names : supertrait? index t b.path = some parent) : MeetsBound index e b parent

theorem mem_parents_of_bound {index : TraitIndex} {t parent : TraitEntry} {b : TraitBound}
    (hBound : b ∈ t.declaration.supertraits) (h : supertrait? index t b.path = some parent) :
    parent ∈ parents index t :=
  List.mem_filterMap.mpr ⟨b.path, List.mem_map_of_mem hBound, h⟩

theorem Walked.mem {e t : TraitEntry} {i : Interface} {order : List TraitEntry}
    (hSupertraits : i.supertraits = order.map (·.cratePath))
    (hListed : ∀ t ∈ order, Listed c.index t)
    (hClosed : ∀ t ∈ e :: order, Closed c.index (e.cratePath :: i.supertraits) t)
    (h : Walked c.index e t) : t ∈ e :: order := by
  induction h with
  | service => exact List.mem_cons_self
  | @supertrait t parent _ hParent hOther ih =>
    have hPath := (List.mem_cons.mp (hClosed t ih parent hParent)).resolve_left hOther
    rw [hSupertraits] at hPath
    obtain ⟨t', ht', hSame⟩ := List.mem_map.mp hPath
    have hFound := hListed t' ht'
    rw [Listed, hSame, parents_listed hParent] at hFound
    exact List.mem_cons_of_mem _ (Option.some.inj hFound ▸ ht')

theorem MeetsBound.recorded {e parent : TraitEntry} {i : Interface} {b : TraitBound}
    (h : MeetsBound c.index e b parent) (hi : (interfaceOf c e).result = .ok i) :
    Listed c.index parent ∧ parent.cratePath ∈ i.qualifiedName :: i.supertraits := by
  obtain ⟨hWalked, hBound, hParent⟩ := h
  obtain ⟨order, hSupertraits, hListed, hClosed⟩ := interfaceOf_closed hi
  refine ⟨supertrait?_listed hParent, ?_⟩
  rw [interfaceOf_qualifiedName hi]
  exact hClosed _ (hWalked.mem hSupertraits hListed hClosed) parent
    (mem_parents_of_bound hBound hParent)

/-! ## Headers -/

/-- The names of the path that heads the block of a trait.  The implementation stands beside the
service trait. -/
def headerNames (i : Interface) (parent : TraitEntry) : List String :=
  if parent.cratePath = i.qualifiedName then [i.name]
  else "crate" :: parent.modulePath ++ [parent.declaration.name]

/-- The implementation has a block that is headed by the trait of a bound, with the arguments of the
bound. -/
structure KeepsArguments (i : Interface) (b : TraitBound) (parent : TraitEntry) : Prop where
  block : ∀ encodings, ∃ functions,
    .implementation (joinPath (headerNames i parent)) i.implName functions ∈
      Emission.items i encodings
  header : ∃ tokens segments,
    Source.parseTypeTokens? (Code.pathTokens (joinPath (headerNames i parent))) =
      some (.path tokens false segments) ∧
    segments.map (·.name) = headerNames i parent ∧
    Source.givenArguments segments = Source.givenArguments b.segments

variable {e parent : TraitEntry} {i : Interface} {b : TraitBound}

theorem joinPath_headerNames (i : Interface) (parent : TraitEntry) :
    joinPath (headerNames i parent) =
      if parent.cratePath = i.qualifiedName then i.name else parent.cratePath := by
  unfold headerNames
  split
  · exact joinPath_singleton i.name
  · rfl

theorem exists_block (h : (interfaceOf c e).result = .ok i) {trait : String}
    (hTrait : trait ∈ i.name :: i.supertraits) (encodings : List BodyEncoding) :
    ∃ functions, .implementation trait i.implName functions ∈ Emission.items i encodings := by
  obtain ⟨hName, order, hGathers, _, _⟩ := interfaceOf_gathers h
  rw [← (traitGroups_blocks encodings (hGathers.declaredIn_mem hName)).1] at hTrait
  obtain ⟨g, hg, rfl⟩ := List.mem_map.mp hTrait
  have hBlock : .implementation g.trait i.implName g.functions ∈
      (Emission.items i encodings).filter isTraitBlock := by
    rw [filter_items]
    exact List.mem_map_of_mem hg
  exact ⟨g.functions, (List.mem_filter.mp hBlock).1⟩

theorem header_bare (hName : Code.IsName i.name) (hParent : parent.WellNamed)
    (hModule : parent.cratePath ≠ i.qualifiedName → ∀ s ∈ parent.modulePath, IsSegment s) :
    ∃ tokens, Source.parseTypeTokens? (Code.pathTokens (joinPath (headerNames i parent))) =
      some (.path tokens false ((headerNames i parent).map bareSegment)) := by
  by_cases hOwn : parent.cratePath = i.qualifiedName
  · rw [headerNames, if_pos hOwn]
    refine Source.parseTypeTokens?_path (List.cons_ne_nil _ _) (by simpa using hName.isSegment) ?_
    intro hTry
    have hPlain := hName.plain
    rw [Option.some.inj hTry] at hPlain
    exact absurd hPlain (by decide)
  · rw [headerNames, if_neg hOwn]
    have hCrate : IsSegment "crate" := Source.isSegment_iff.mp (by decide)
    refine Source.parseTypeTokens?_path (List.cons_ne_nil _ _) ?_ (by simp)
    refine List.forall_mem_append.mpr ⟨List.forall_mem_cons.mpr ⟨hCrate, hModule hOwn⟩, ?_⟩
    simpa using hParent.isName.isSegment

theorem keepsArguments_iff (h : (interfaceOf c e).result = .ok i)
    (hName : Code.IsName i.name) (hMeets : MeetsBound c.index e b parent)
    (hParent : parent.WellNamed)
    (hModule : parent.cratePath ∈ i.supertraits → ∀ s ∈ parent.modulePath, IsSegment s) :
    KeepsArguments i b parent ↔ Source.givenArguments b.segments = [] := by
  obtain ⟨-, hRecorded⟩ := hMeets.recorded h
  have hSupertrait : parent.cratePath ≠ i.qualifiedName → parent.cratePath ∈ i.supertraits :=
    (List.mem_cons.mp hRecorded).resolve_left
  obtain ⟨tokens, hParse⟩ := header_bare hName hParent fun hOther => hModule (hSupertrait hOther)
  constructor
  · rintro ⟨-, tokens', segments, hParse', -, hSame⟩
    rw [hParse] at hParse'
    cases hParse'
    rw [← hSame, Source.givenArguments_bare]
  · intro hNone
    refine ⟨exists_block h ?_, tokens, _, hParse, map_name_bareSegment _, ?_⟩
    · rw [joinPath_headerNames]
      split
      · exact List.mem_cons_self
      · rename_i hOther
        exact List.mem_cons_of_mem _ (hSupertrait hOther)
    · rw [hNone, Source.givenArguments_bare]

/-- The block of a supertrait carries the arguments of a bound that names it if the bound gives
none. -/
theorem interfaceOf_keepsArguments_iff (c : Context) (hIndex : ∀ t ∈ c.index.traits, t.WellNamed)
    (e : TraitEntry) (he : e ∈ c.index.traits) (i : Interface)
    (h : (interfaceOf c e).result = .ok i)
    (hModules : ∀ t ∈ c.index.traits, t.cratePath ∈ i.supertraits →
      ∀ s ∈ t.modulePath, IsSegment s) :
    ∀ b parent, MeetsBound c.index e b parent →
      (KeepsArguments i b parent ↔ Source.givenArguments b.segments = []) := by
  have hName : Code.IsName i.name := by
    rw [(interfaceOf_gathers h).1]
    exact (hIndex e he).isName
  intro b parent hMeets
  have hMem := (hMeets.recorded h).1.mem
  exact keepsArguments_iff h hName hMeets (hIndex parent hMem) (hModules parent hMem)

theorem meetingContext_wellNamed : ∀ t ∈ meetingContext.index.traits, t.WellNamed :=
  TraitIndex.ofFiles_wellNamed (by decide +kernel)

theorem meetingService_keepsArguments :
    ∃ i, (interfaceOf meetingContext meetingService).result = .ok i ∧ ∃ b parent,
      MeetsBound meetingContext.index meetingService b parent ∧ KeepsArguments i b parent := by
  obtain ⟨i, hResult, _⟩ := meetingService_result
  have hModules : ∀ t ∈ meetingContext.index.traits, ∀ s ∈ t.modulePath,
      Source.isSegment s = true := by decide +kernel
  obtain ⟨parent, hParent⟩ : ∃ parent,
      supertrait? meetingContext.index meetingService ⟨false, ["Reading"]⟩ = some parent :=
    Option.isSome_iff_exists.mp (by decide +kernel)
  have hMeets : MeetsBound meetingContext.index meetingService ⟨false, [.mk "Reading" .none]⟩
      parent := ⟨.service, by simp [meetingService, getTrait], hParent⟩
  refine ⟨i, hResult, _, parent, hMeets, ?_⟩
  exact (interfaceOf_keepsArguments_iff meetingContext meetingContext_wellNamed meetingService
    meetingService_mem i hResult
    (fun t ht _ s hs => Source.isSegment_iff.mp (hModules t ht s hs)) _ parent hMeets).mpr rfl

/-- `Base<u32>` -/
def genericBound : TraitBound :=
  ⟨false, [.mk "Base" (.angle [.type (.path [] false [.mk "u32" .none])])]⟩

def genericService : TraitEntry where
  declaration := { getTrait "DocsApi" [] ["list"] with supertraits := [genericBound] }
  file := "src/docs.rs"
  modulePath := ["docs"]
  imports := .empty

def genericBase : TraitEntry where
  declaration := { getTrait "Base" [] ["ping"] with hasGenerics := true }
  file := "src/docs.rs"
  modulePath := ["docs"]
  imports := .empty

/-- `trait DocsApi: Base<u32>` and `trait Base<T>` in one file -/
def genericFiles : List SourceFile :=
  [⟨"src/docs.rs", ["docs"], [.trait genericService.declaration, .trait genericBase.declaration]⟩]

def genericContext : Context := ⟨.ofNamespace "api", TraitIndex.ofFiles genericFiles⟩

/-- A supertrait with type parameters is recorded, and its block is headed by its bare path. -/
theorem genericService_drops_arguments :
    ∃ i, (interfaceOf genericContext genericService).result = .ok i ∧
      i.supertraits = ["crate::docs::Base"] ∧ genericBase.declaration.hasGenerics = true ∧
      MeetsBound genericContext.index genericService genericBound genericBase ∧
      ¬KeepsArguments i genericBound genericBase := by
  have hShown : ((interfaceOf genericContext genericService).result.toOption.map fun i =>
      (i.name, i.supertraits)) = some ("DocsApi", ["crate::docs::Base"]) := by
    decide +kernel
  cases hResult : (interfaceOf genericContext genericService).result with
  | error err =>
    rw [hResult] at hShown
    cases hShown
  | ok i =>
    rw [hResult] at hShown
    obtain ⟨hName, hSupertraits⟩ := Prod.mk.inj (Option.some.inj hShown)
    have hMeets : MeetsBound genericContext.index genericService genericBound genericBase :=
      ⟨.service, List.mem_singleton_self _, rfl⟩
    refine ⟨i, rfl, hSupertraits, rfl, hMeets, fun hKeeps => ?_⟩
    have hIndex : ∀ t ∈ genericContext.index.traits, t.WellNamed :=
      TraitIndex.ofFiles_wellNamed (by decide +kernel)
    have hModule : ∀ s ∈ genericBase.modulePath, Source.isSegment s = true := by decide
    have hService : Code.IsName i.name := by
      rw [hName]
      exact Source.isName_iff.mp (by decide)
    have hNone := (keepsArguments_iff hResult hService hMeets
      (hIndex _ (List.mem_cons_of_mem _ (List.mem_singleton_self _)))
      fun _ s hs => Source.isSegment_iff.mp (hModule s hs)).mp hKeeps
    cases hNone

end Extraction
end TraitClient
