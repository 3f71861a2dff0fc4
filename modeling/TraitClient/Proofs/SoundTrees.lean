import Mathlib.Data.List.Nodup
import TraitClient.Proofs.FileChanges

/-!
# Sound trees

In a sound tree everything is in a directory.  A path that does not lead to a directory then leads
to a name in one, and where paths lead depends on the directories and links alone.
-/
namespace TraitClient
namespace FileTree

open FilePath

variable {t t' t'' : FileTree} {base l : Location} {followLast : Bool} {n links : Nat}
  {path : List String}

structure IsSound (t : FileTree) : Prop where
  distinct : (t.entries.map Prod.fst).Nodup
  inDirectory : ∀ l name e, t.get? (l ++ [name]) = some e → t.get? l = some .directory
  working : t.get? t.working = some .directory

theorem get?_of_mem {e : Entry} (hDistinct : (t.entries.map Prod.fst).Nodup) (hRoot : l ≠ [])
    (hMem : (l, e) ∈ t.entries) : t.get? l = some e := by
  cases hGet : t.get? l with
  | none =>
    rw [get?_eq_of_ne_nil hRoot, Option.map_eq_none_iff, List.find?_eq_none] at hGet
    exact absurd (beq_self_eq_true l) (hGet _ hMem)
  | some other =>
    have hSame := List.inj_on_of_nodup_map hDistinct (mem_of_get? hRoot hGet) hMem rfl
    exact congrArg some (Prod.ext_iff.mp hSame).2

theorem ne_nil_of_ne_directory (h : t.get? l ≠ some .directory) : l ≠ [] := by
  rintro rfl
  exact h rfl

namespace IsSound

theorem above (h : t.IsSound) {below : Location} {e : Entry} (hBelow : below ≠ [])
    (he : t.get? (l ++ below) = some e) : t.get? l = some .directory := by
  induction below using List.reverseRecOn generalizing e with
  | nil => exact absurd rfl hBelow
  | append_singleton front last ih =>
    rw [← List.append_assoc] at he
    have hFront := h.inDirectory _ _ _ he
    by_cases hEmpty : front = []
    · rwa [hEmpty, List.append_nil] at hFront
    · exact ih hEmpty hFront

theorem dropLast (h : t.IsSound) (hBase : t.get? base = some .directory) :
    t.get? base.dropLast = some .directory := by
  rcases List.eq_nil_or_concat base with rfl | ⟨front, last, rfl⟩
  · rfl
  · rw [List.concat_eq_append] at hBase ⊢
    rw [List.dropLast_concat]
    exact h.inDirectory _ _ _ hBase

theorem start (hBase : t.get? base = some .directory) (name : String) :
    t.get? (t.start name base) = some .directory := by
  unfold FileTree.start
  split
  · rfl
  · exact hBase

end IsSound

/-! ## Places that paths lead to -/

/-- Where a path leads, whatever is there. -/
def Lookup.place : Lookup → Location
  | .found l _ => l
  | .missing l => l

@[simp] theorem place_entryLookup (l : Location) (e : Option Entry) :
    (entryLookup l e).place = l := by
  cases e <;> rfl

/-- What is found is what the tree has there. -/
theorem follow_entry {r : Lookup} (h : t.follow followLast n links base path = some r) :
    r = entryLookup r.place (t.get? r.place) := by
  fun_induction FileTree.follow t followLast n links base path
  case case1 | case6 | case9 | case11 => cases h
  case case2 =>
    obtain ⟨e, hEntry, rfl⟩ := Option.map_eq_some_iff.mp h
    rw [Lookup.place, hEntry]
    rfl
  case case3 ih | case4 ih | case7 ih | case12 ih => exact ih h
  case case5 hHere _ | case8 hHere _ | case10 hHere _ =>
    cases h
    rw [Lookup.place, hHere]
    rfl

/-- Whether the last link is followed makes a difference only where a path leads to a link. -/
theorem follow_last (t : FileTree) (n links : Nat) (base : Location) (path : List String) :
    t.follow false n links base path = t.follow true n links base path ∨
      ∃ l target, t.follow false n links base path = some (.found l (.link target)) := by
  induction n generalizing links base path with
  | zero => exact .inl rfl
  | succ n ih =>
    cases path with
    | nil => exact .inl rfl
    | cons step rest =>
      by_cases hCurrent : step = "."
      · subst hCurrent
        exact ih _ _ _
      by_cases hParent : step = ".."
      · subst hParent
        exact ih _ _ _
      rw [follow_name hCurrent hParent, follow_name hCurrent hParent]
      cases hHere : t.get? (base ++ [step]) with
      | none => exact .inl rfl
      | some e =>
        cases e with
        | directory => exact ih _ _ _
        | file content => exact .inl rfl
        | link target =>
          by_cases hRest : rest.isEmpty = true
          · exact .inr ⟨_, target, if_pos (by rw [hRest]; rfl)⟩
          · simp only [hRest, Bool.false_and, Bool.false_eq_true, if_false]
            split
            · exact .inl rfl
            · exact ih _ _ _

/-- A name in a directory is at a place, and unless the last link is followed that name is the last
step of a path. -/
def EndsIn (t : FileTree) (followLast : Bool) (path : List String) (l : Location) : Prop :=
  ∃ front name, l = front ++ [name] ∧ t.get? front = some .directory ∧
    (followLast = false → ∃ steps, path = steps ++ [name] ∧ name ≠ "." ∧ name ≠ "..")

namespace EndsIn

theorem single {name : String} (hBase : t.get? base = some .directory) (hCurrent : name ≠ ".")
    (hParent : name ≠ "..") : t.EndsIn followLast [name] (base ++ [name]) :=
  ⟨base, name, rfl, hBase, fun _ => ⟨[], rfl, hCurrent, hParent⟩⟩

theorem cons (h : t.EndsIn followLast path l) (step : String) :
    t.EndsIn followLast (step :: path) l := by
  obtain ⟨front, name, hPlace, hFront, hLast⟩ := h
  refine ⟨front, name, hPlace, hFront, fun hFollow => ?_⟩
  obtain ⟨steps, rfl, hName⟩ := hLast hFollow
  exact ⟨step :: steps, rfl, hName⟩

theorem of_append {target : List String} (h : t.EndsIn followLast (target ++ path) l)
    (hPath : followLast = false → path ≠ []) : t.EndsIn followLast path l := by
  obtain ⟨front, name, hPlace, hFront, hLast⟩ := h
  refine ⟨front, name, hPlace, hFront, fun hFollow => ?_⟩
  obtain ⟨steps, hSteps, hName⟩ := hLast hFollow
  rw [← List.dropLast_append_getLast (hPath hFollow), ← List.append_assoc] at hSteps
  obtain ⟨-, hSame⟩ := List.append_inj' hSteps rfl
  exact ⟨path.dropLast, by rw [← hSame, List.dropLast_append_getLast], hName⟩

end EndsIn

/-- A path that does not lead to a directory leads to a name in a directory. -/
theorem IsSound.follow_endsIn (hSound : t.IsSound) (hBase : t.get? base = some .directory)
    {r : Lookup} (h : t.follow followLast n links base path = some r)
    (hOther : t.get? r.place ≠ some .directory) : t.EndsIn followLast path r.place := by
  fun_induction FileTree.follow t followLast n links base path
  case case1 | case6 | case9 | case11 => cases h
  case case2 =>
    obtain ⟨e, -, rfl⟩ := Option.map_eq_some_iff.mp h
    exact absurd hBase hOther
  case case3 step rest _ ih => exact (ih hBase h).cons step
  case case4 step rest _ _ ih => exact (ih (hSound.dropLast hBase) h).cons step
  case case7 step rest _ _ _ hHere ih => exact (ih hHere h).cons step
  case case5 step rest hCurrent hParent _ _ hRest | case8 step rest hCurrent hParent _ _ _ hRest =>
    cases h
    rw [List.isEmpty_iff.mp hRest]
    exact .single hBase (by simpa using hCurrent) (by simpa using hParent)
  case case10 step rest hCurrent hParent _ _ _ hRest =>
    cases h
    rw [Bool.and_eq_true] at hRest
    rw [List.isEmpty_iff.mp hRest.1]
    exact .single hBase (by simpa using hCurrent) (by simpa using hParent)
  case case12 step rest hCurrent hParent _ target _ hMore _ ih =>
    refine ((ih (IsSound.start hBase target) h).of_append fun hFollow hRest => ?_).cons step
    rw [hFollow, hRest] at hMore
    exact hMore rfl

/-! ## Trees that differ in files only -/

/-- A file can be put there: there is nothing but perhaps a file. -/
def IsOpen (t : FileTree) (l : Location) : Prop :=
  ∀ e, t.get? l = some e → ∃ content, e = .file content

theorem isOpen_cases (t : FileTree) (l : Location) :
    t.get? l = some .directory ∨ (∃ target, t.get? l = some (.link target)) ∨ t.IsOpen l := by
  cases hGet : t.get? l with
  | none => exact .inr (.inr fun e he => absurd (hGet.symm.trans he) (by simp))
  | some e =>
    cases e with
    | directory => exact .inl rfl
    | link target => exact .inr (.inl ⟨target, rfl⟩)
    | file content =>
      refine .inr (.inr fun e he => ⟨content, ?_⟩)
      exact Option.some_inj.mp (he.symm.trans hGet)

namespace IsOpen

theorem not_isLink (h : t.IsOpen l) {e : Entry} (he : t.get? l = some e) : ¬IsLink e := by
  obtain ⟨content, rfl⟩ := h e he
  rintro ⟨target, hTarget⟩
  cases hTarget

theorem ne_directory (h : t.IsOpen l) : t.get? l ≠ some .directory := by
  intro hDirectory
  obtain ⟨content, hFile⟩ := h _ hDirectory
  cases hFile

theorem follow {step : String} {rest : List String} (h : t.IsOpen (base ++ [step]))
    (hCurrent : step ≠ ".") (hParent : step ≠ "..") :
    (t.follow followLast (n + 1) links base (step :: rest)).map Lookup.place =
      if rest.isEmpty then some (base ++ [step]) else none := by
  rw [follow_name hCurrent hParent]
  cases hHere : t.get? (base ++ [step]) with
  | none => cases rest <;> rfl
  | some e =>
    obtain ⟨content, rfl⟩ := h e hHere
    cases rest <;> rfl

end IsOpen

structure SameWays (t t' : FileTree) : Prop where
  keeps : t.Keeps t'
  kept : t'.Keeps t
  budget : t'.linkBudget = t.linkBudget
  working : t'.working = t.working

namespace SameWays

theorem trans (h : t.SameWays t') (h' : t'.SameWays t'') : t.SameWays t'' :=
  ⟨fun l e hKind he => h'.keeps l e hKind (h.keeps l e hKind he),
    fun l e hKind he => h.kept l e hKind (h'.kept l e hKind he),
    h'.budget.trans h.budget, h'.working.trans h.working⟩

theorem isOpen (h : t.SameWays t') (hOpen : t.IsOpen l) : t'.IsOpen l := by
  rcases t'.isOpen_cases l with hDirectory | ⟨target, hLink⟩ | hOpen'
  · exact absurd (h.kept l _ (.inl rfl) hDirectory) hOpen.ne_directory
  · exact absurd ⟨target, rfl⟩ (hOpen.not_isLink (h.kept l _ (.inr ⟨target, rfl⟩) hLink))
  · exact hOpen'

theorem follow (h : t.SameWays t') (hSound : t.IsSound) (hBase : t.get? base = some .directory) :
    (t'.follow followLast n links base path).map Lookup.place =
      (t.follow followLast n links base path).map Lookup.place := by
  induction n generalizing links base path with
  | zero => rfl
  | succ n ih =>
    cases path with
    | nil => rw [follow_nil, follow_nil, hBase, h.keeps _ _ (.inl rfl) hBase]
    | cons step rest =>
      by_cases hCurrent : step = "."
      · subst hCurrent
        exact ih hBase
      by_cases hParent : step = ".."
      · subst hParent
        exact ih (hSound.dropLast hBase)
      rcases t.isOpen_cases (base ++ [step]) with hHere | ⟨target, hHere⟩ | hOpen
      · rw [follow_name hCurrent hParent, follow_name hCurrent hParent, hHere,
          h.keeps _ _ (.inl rfl) hHere]
        exact ih hHere
      · rw [follow_name hCurrent hParent, follow_name hCurrent hParent, hHere,
          h.keeps _ _ (.inr ⟨target, rfl⟩) hHere]
        dsimp only
        split
        · rfl
        · split
          · rfl
          · exact ih (IsSound.start hBase target)
      · rw [hOpen.follow hCurrent hParent, (h.isOpen hOpen).follow hCurrent hParent]

end SameWays

/-! ## Putting and removing files -/

theorem put_sameWays (hDistinct : (t.entries.map Prod.fst).Nodup) (hRoot : l ≠ [])
    (hOpen : t.IsOpen l) (content : List UInt8) : t.SameWays (t.put l (.file content)) := by
  have hPlain : ¬IsLink (.file content) := by rintro ⟨target, hTarget⟩; cases hTarget
  refine ⟨?_, ?_, linkBudget_eq ?_, rfl⟩
  · intro other e hKind he
    rw [get?_put hRoot, if_neg]
    · exact he
    · rintro rfl
      rcases hKind with rfl | hLink
      · exact hOpen.ne_directory he
      · exact hOpen.not_isLink he hLink
  · intro other e hKind he
    rw [get?_put hRoot] at he
    split at he
    · cases he
      rcases hKind with hDirectory | hLink
      · cases hDirectory
      · exact absurd hLink hPlain
    · exact he
  · rw [FileTree.put, longestTarget_append_single hPlain, longestTarget_filter]
    rintro ⟨other, e⟩ hMem hLink
    rw [bne_iff_ne]
    rintro rfl
    exact hOpen.not_isLink (get?_of_mem hDistinct hRoot hMem) hLink

namespace IsSound

variable {front : List String} {name : String} {e : Entry}

theorem put (h : t.IsSound) (hFront : t.get? front = some .directory)
    (hOld : t.get? (front ++ [name]) ≠ some .directory) : (t.put (front ++ [name]) e).IsSound := by
  have hRoot : front ++ [name] ≠ [] := by simp
  have hStays : ∀ l, t.get? l = some .directory →
      (t.put (front ++ [name]) e).get? l = some .directory := by
    intro l hDirectory
    rw [get?_put hRoot, if_neg]
    · exact hDirectory
    · rintro rfl
      exact hOld hDirectory
  refine ⟨?_, ?_, hStays _ h.working⟩
  · rw [FileTree.put, List.map_append, List.map_cons, List.map_nil, List.nodup_append]
    refine ⟨h.distinct.sublist (List.filter_sublist.map _), by simp, ?_⟩
    rintro l hMem l' hLast rfl
    obtain ⟨old, hKept, rfl⟩ := List.mem_map.mp hMem
    rw [List.mem_singleton] at hLast
    simpa [hLast] using (List.mem_filter.mp hKept).2
  · intro l last found hFound
    refine hStays l ?_
    rw [get?_put hRoot] at hFound
    split at hFound
    · rename_i hSame
      rwa [(List.append_inj' hSame rfl).1]
    · exact h.inDirectory l last found hFound

theorem eq_of_prefix (h : t.IsSound) (hOld : t.get? l ≠ some .directory) {other : Location}
    (hPrefix : l <+: other) {e : Entry} (he : t.get? other = some e) : other = l := by
  obtain ⟨below, rfl⟩ := hPrefix
  by_cases hBelow : below = []
  · rw [hBelow, List.append_nil]
  · exact absurd (h.above hBelow he) hOld

theorem get?_drop (h : t.IsSound) (hOld : t.get? l ≠ some .directory) (other : Location) :
    (t.drop l).get? other = if other = l then none else t.get? other := by
  rw [FileTree.get?_drop (ne_nil_of_ne_directory hOld)]
  by_cases hSame : other = l
  · rw [if_pos hSame, hSame, if_pos (List.prefix_refl l)]
  rw [if_neg hSame]
  split
  · rename_i hPrefix
    rw [eq_comm, Option.eq_none_iff_forall_ne_some]
    exact fun e he => hSame (h.eq_of_prefix hOld hPrefix he)
  · rfl

theorem drop (h : t.IsSound) (hOld : t.get? l ≠ some .directory) : (t.drop l).IsSound := by
  have hStays : ∀ other, t.get? other = some .directory →
      (t.drop l).get? other = some .directory := by
    intro other hDirectory
    rw [h.get?_drop hOld, if_neg]
    · exact hDirectory
    · rintro rfl
      exact hOld hDirectory
  refine ⟨h.distinct.sublist (List.filter_sublist.map _), ?_, hStays _ h.working⟩
  intro front last found hFound
  rw [h.get?_drop hOld] at hFound
  split at hFound
  · cases hFound
  · exact hStays front (h.inDirectory front last found hFound)

theorem drop_sameWays (h : t.IsSound) (hOpen : t.IsOpen l) :
    t.SameWays (t.drop l) := by
  refine ⟨?_, ?_, linkBudget_eq ?_, rfl⟩
  · intro other e hKind he
    rw [h.get?_drop hOpen.ne_directory, if_neg]
    · exact he
    · rintro rfl
      rcases hKind with rfl | hLink
      · exact hOpen.ne_directory he
      · exact hOpen.not_isLink he hLink
  · intro other e hKind he
    rw [h.get?_drop hOpen.ne_directory] at he
    split at he
    · cases he
    · exact he
  · rw [FileTree.drop, longestTarget_filter]
    rintro ⟨other, e⟩ hMem hLink
    rw [Bool.not_eq_true', ← Bool.not_eq_true, List.isPrefixOf_iff_prefix]
    intro hPrefix
    have hSome : other ≠ [] := by
      rintro rfl
      exact ne_nil_of_ne_directory hOpen.ne_directory (List.prefix_nil.mp hPrefix)
    have hGet := get?_of_mem h.distinct hSome hMem
    obtain rfl : other = l := h.eq_of_prefix hOpen.ne_directory hPrefix hGet
    exact hOpen.not_isLink hGet hLink

end IsSound

/-! ## Operations -/

theorem lookup_entry {name : String} {r : Lookup} (h : t.lookup name followLast = some r) :
    r = entryLookup r.place (t.get? r.place) := by
  have hName : name ≠ "" := by
    rintro rfl
    cases h
  rw [lookup_of_ne hName] at h
  exact follow_entry h

theorem get?_of_found {name : String} {e : Entry}
    (h : t.lookup name followLast = some (.found l e)) : t.get? l = some e := by
  have hEntry := lookup_entry h
  rw [Lookup.place] at hEntry
  cases hGet : t.get? l with
  | none =>
    rw [hGet] at hEntry
    cases hEntry
  | some other =>
    rw [hGet] at hEntry
    cases hEntry
    rfl

theorem get?_of_missing {name : String} (h : t.lookup name followLast = some (.missing l)) :
    t.get? l = none := by
  have hEntry := lookup_entry h
  rw [Lookup.place] at hEntry
  cases hGet : t.get? l with
  | none => rfl
  | some other =>
    rw [hGet] at hEntry
    cases hEntry

theorem IsSound.lookup_endsIn (hSound : t.IsSound) {name : String} {r : Lookup}
    (h : t.lookup name followLast = some r) (hOther : t.get? r.place ≠ some .directory) :
    t.EndsIn followLast (steps name) r.place := by
  have hName : name ≠ "" := by
    rintro rfl
    cases h
  rw [lookup_of_ne hName] at h
  exact hSound.follow_endsIn (IsSound.start hSound.working name) h hOther

theorem lookup_last (t : FileTree) (name : String) :
    t.lookup name false = t.lookup name true ∨
      ∃ l target, t.lookup name false = some (.found l (.link target)) := by
  by_cases hName : name = ""
  · subst hName
    exact .inl rfl
  · rw [lookup_of_ne hName, lookup_of_ne hName]
    exact follow_last t _ _ _ _

theorem lookup_of_not_link {name : String} {r : Lookup} (h : t.lookup name false = some r)
    (hOther : ∀ l target, r ≠ .found l (.link target)) : t.lookup name true = some r := by
  rcases t.lookup_last name with hSame | ⟨l, target, hLink⟩
  · exact hSame.symm.trans h
  · cases h.symm.trans hLink
    exact absurd rfl (hOther l target)

theorem SameWays.lookup_place (h : t.SameWays t') (hSound : t.IsSound) (followLast : Bool)
    (name : String) :
    (t'.lookup name followLast).map Lookup.place = (t.lookup name followLast).map Lookup.place := by
  by_cases hName : name = ""
  · subst hName
    rfl
  · have hStart : t'.start name t.working = t.start name t.working := rfl
    rw [lookup_of_ne hName, lookup_of_ne hName, h.budget, h.working, hStart]
    exact h.follow hSound (IsSound.start hSound.working name)

theorem SameWays.lookup (h : t.SameWays t') (hSound : t.IsSound) {name : String} {r : Lookup}
    (hLookup : t.lookup name followLast = some r) :
    t'.lookup name followLast = some (entryLookup r.place (t'.get? r.place)) := by
  have hPlaces := h.lookup_place hSound followLast name
  rw [hLookup] at hPlaces
  obtain ⟨r', hLookup', hPlace⟩ := Option.map_eq_some_iff.mp hPlaces
  rw [hLookup', lookup_entry hLookup', hPlace]

theorem fresh_isSound (working : Location) : (fresh working).IsSound := by
  have hDistinct : ((fresh working).entries.map Prod.fst).Nodup := by
    rw [fresh, List.map_map]
    refine List.nodup_range.map_on fun m hm n hn hSame => ?_
    rw [List.mem_range] at hm hn
    have hLengths := congrArg List.length hSame
    simp only [Function.comp, List.length_take] at hLengths
    omega
  -- Every place above the working directory has an entry, the root by convention.
  have hAbove : ∀ n ≤ working.length, (fresh working).get? (working.take n) = some .directory := by
    intro n hn
    cases n with
    | zero => rfl
    | succ n =>
      refine get?_of_mem hDistinct ?_ (List.mem_map.mpr ⟨n, List.mem_range.mpr hn, rfl⟩)
      rw [← List.length_pos_iff, List.length_take]
      omega
  refine ⟨hDistinct, ?_, ?_⟩
  · intro l name e he
    have hMem := mem_of_get? (by simp) he
    obtain ⟨n, hn, hPair⟩ := List.mem_map.mp hMem
    rw [List.mem_range] at hn
    obtain ⟨hPlace, -⟩ := Prod.ext_iff.mp hPair
    rw [List.take_succ_eq_append_getElem hn] at hPlace
    rw [← (List.append_inj' hPlace rfl).1]
    exact hAbove n (Nat.le_of_lt hn)
  · have hWhole := hAbove working.length (Nat.le_refl _)
    rwa [List.take_length] at hWhole

/-- A file is written to where the path leads. -/
theorem write?_eq_some_iff {name : String} {content : List UInt8} :
    t.write? name content = some t' ↔ ∃ r, t.lookup name true = some r ∧ t.IsOpen r.place ∧
      t' = t.put r.place (.file content) := by
  constructor
  · intro h
    unfold FileTree.write? at h
    split at h
    · rename_i l old hLookup
      cases h
      refine ⟨_, hLookup, fun e he => ⟨old, ?_⟩, rfl⟩
      exact Option.some_inj.mp (he.symm.trans (get?_of_found hLookup))
    · rename_i l hLookup
      cases h
      refine ⟨_, hLookup, fun e he => ?_, rfl⟩
      cases (get?_of_missing hLookup).symm.trans he
    · cases h
  · rintro ⟨r, hLookup, hOpen, rfl⟩
    cases r with
    | missing l => simp only [FileTree.write?, hLookup, Lookup.place]
    | found l e =>
      obtain ⟨old, rfl⟩ := hOpen e (get?_of_found hLookup)
      simp only [FileTree.write?, hLookup, Lookup.place]

/-- What is moved is no directory and goes where there is none. -/
theorem rename?_eq_some_iff {source target : String} :
    t.rename? source target = some t' ↔ ∃ s e r, t.lookup source false = some (.found s e) ∧
      e ≠ .directory ∧ t.lookup target false = some r ∧ t.get? r.place ≠ some .directory ∧
      t' = (t.drop s).put r.place e := by
  constructor
  · intro h
    unfold FileTree.rename? at h
    split at h
    · cases h
    · cases h
    · rename_i s e d hKind hSource hTarget
      cases h
      refine ⟨s, e, _, hSource, hKind, hTarget, ?_, rfl⟩
      simp [Lookup.place, get?_of_missing hTarget]
    · rename_i s e d old hKind hOther hSource hTarget
      cases h
      refine ⟨s, e, _, hSource, hKind, hTarget, ?_, rfl⟩
      simpa [Lookup.place, get?_of_found hTarget] using hOther
    · cases h
  · rintro ⟨s, e, r, hSource, hKind, hTarget, hOther, rfl⟩
    unfold FileTree.rename?
    split
    · rename_i hSource'
      cases hSource.symm.trans hSource'
      exact absurd rfl hKind
    · rename_i hTarget' _
      cases hTarget.symm.trans hTarget'
      exact absurd (get?_of_found hTarget) hOther
    · rename_i hSource' hTarget'
      cases hSource.symm.trans hSource'
      cases hTarget.symm.trans hTarget'
      rfl
    · rename_i hSource' hTarget'
      cases hSource.symm.trans hSource'
      cases hTarget.symm.trans hTarget'
      rfl
    · rename_i hMissing hFound
      cases r with
      | missing d => exact absurd hTarget (hMissing s e d hSource)
      | found d old => exact absurd hTarget (hFound s e d old hSource)

namespace IsSound

theorem write? (h : t.IsSound) {name : String} {content : List UInt8}
    (hWritten : t.write? name content = some t') : t'.IsSound := by
  obtain ⟨r, hLookup, hOpen, rfl⟩ := write?_eq_some_iff.mp hWritten
  obtain ⟨front, last, hPlace, hFront, -⟩ := h.lookup_endsIn hLookup hOpen.ne_directory
  rw [hPlace] at hOpen ⊢
  exact h.put hFront hOpen.ne_directory

theorem rename? (h : t.IsSound) {source target : String}
    (hMoved : t.rename? source target = some t') : t'.IsSound := by
  obtain ⟨s, e, r, hSource, hKind, hTarget, hOther, rfl⟩ := rename?_eq_some_iff.mp hMoved
  have hGet : t.get? s ≠ some .directory := by
    rw [get?_of_found hSource]
    exact fun hSame => hKind (Option.some_inj.mp hSame)
  obtain ⟨front, last, hPlace, hFront, -⟩ := h.lookup_endsIn hTarget hOther
  rw [hPlace] at hOther ⊢
  refine (h.drop hGet).put ?_ ?_
  · rw [h.get?_drop hGet, if_neg]
    · exact hFront
    · rintro rfl
      exact hGet hFront
  · rw [h.get?_drop hGet]
    split
    · simp
    · exact hOther

end IsSound

/-! ## Making directories -/

/-- Away from some places a tree has at most some more directories. -/
def SameBut (places : List Location) (t t' : FileTree) : Prop :=
  ∀ l, l ∉ places → t'.get? l = t.get? l ∨ (t.get? l = none ∧ t'.get? l = some .directory)

theorem sameBut_refl (places : List Location) (t : FileTree) : t.SameBut places t :=
  fun _ _ => .inl rfl

theorem SameBut.trans {places : List Location} (h : SameBut places t t')
    (h' : SameBut places t' t'') : SameBut places t t'' := by
  intro l hl
  rcases h l hl, h' l hl with ⟨hSame | ⟨hNone, hMade⟩, hSame' | ⟨hNone', hMade'⟩⟩
  · exact .inl (hSame'.trans hSame)
  · exact .inr ⟨hSame.symm.trans hNone', hMade'⟩
  · exact .inr ⟨hNone, hSame'.trans hMade⟩
  · exact .inr ⟨hNone, hMade'⟩

theorem SameBut.get?_eq {places : List Location} (h : SameBut places t t') (hl : l ∉ places)
    (hOther : t'.get? l ≠ some .directory) : t'.get? l = t.get? l := by
  obtain hSame | ⟨-, hMade⟩ := h l hl
  · exact hSame
  · exact absurd hMade hOther

theorem SameBut.mono {places more : List Location} (h : SameBut places t t')
    (hSubset : places ⊆ more) : SameBut more t t' :=
  fun l hl => h l fun hMem => hl (hSubset hMem)

theorem missingDirectory?_eq_some {name : String} (h : t.missingDirectory? name = some l) :
    ∃ stripped, t.lookup stripped false = some (.missing l) := by
  unfold missingDirectory? at h
  split at h
  · cases h
    exact ⟨_, ‹_›⟩
  · cases h

theorem IsSound.put_directory (h : t.IsSound) {name : String}
    (hMissing : t.missingDirectory? name = some l) :
    (t.put l .directory).IsSound ∧ SameBut [] t (t.put l .directory) := by
  obtain ⟨stripped, hLookup⟩ := missingDirectory?_eq_some hMissing
  have hNone := get?_of_missing hLookup
  have hOther : t.get? l ≠ some .directory := by
    rw [hNone]
    simp
  obtain ⟨front, last, hPlace, hFront, -⟩ := h.lookup_endsIn hLookup hOther
  rw [Lookup.place] at hPlace
  refine ⟨?_, fun other _ => ?_⟩
  · rw [hPlace] at hOther ⊢
    exact h.put hFront hOther
  · rw [get?_put (ne_nil_of_ne_directory hOther)]
    split
    · rename_i hSame
      exact .inr ⟨hSame ▸ hNone, rfl⟩
    · exact .inl rfl

theorem IsSound.makeDirectories? (h : t.IsSound) {fuel : Nat} {name : String}
    (hMade : makeDirectories? fuel t name = some t') : t'.IsSound ∧ SameBut [] t t' := by
  fun_induction FileTree.makeDirectories? fuel t name generalizing t'
  case case1 | case5 | case6 | case7 | case10 => cases hMade
  case case2 | case4 =>
    cases hMade
    exact ⟨h, sameBut_refl [] _⟩
  case case3 hMissing =>
    cases hMade
    exact h.put_directory hMissing
  case case8 hAbove _ hMissing ih =>
    cases hMade
    obtain ⟨hSound, hSame⟩ := ih h hAbove
    obtain ⟨hSound', hSame'⟩ := hSound.put_directory hMissing
    exact ⟨hSound', hSame.trans hSame'⟩
  case case9 hAbove _ _ ih =>
    cases hMade
    exact ih h hAbove

end FileTree
end TraitClient
