import TraitClient.Generation.Sink
import TraitClient.Proofs.FileLookup

/-!
# Changes below a directory

What a directory holds is a function from the places below it to entries.  Each operation on a path
of plain names changes that function and nothing that the directory is reached by.
-/
namespace TraitClient
namespace FileTree

open FilePath

variable {t : FileTree} {path : String} {l : Location} {held : Location → Option Entry}

/-! ## Texts as bytes -/

theorem loop_toList_eq (bytes : ByteArray) (i : Nat) (read : List UInt8) :
    ByteArray.toList.loop bytes i read = read.reverse ++ bytes.data.toList.drop i := by
  fun_induction ByteArray.toList.loop bytes i read with
  | case1 i read hMore ih =>
    have hInside : i < bytes.data.toList.length := hMore
    have hByte : bytes.get! i = bytes.data.toList[i] := getElem!_pos bytes.data i hMore
    rw [ih, List.reverse_cons, List.append_assoc, List.drop_eq_getElem_cons hInside, hByte]
    rfl
  | case2 i read hMore =>
    have hEnd : bytes.data.toList.length ≤ i := Nat.le_of_not_lt hMore
    rw [List.drop_eq_nil_of_le hEnd, List.append_nil]

theorem toList_eq_data (bytes : ByteArray) : bytes.toList = bytes.data.toList := by
  rw [ByteArray.toList, loop_toList_eq]
  rfl

theorem fromUTF8?_eq_some_iff (bytes : List UInt8) (text : String) :
    String.fromUTF8? ⟨bytes.toArray⟩ = some text ↔ bytes = text.toUTF8.toList := by
  rw [toList_eq_data]
  unfold String.fromUTF8?
  constructor
  · intro h
    split at h
    · injection h with h
      subst h
      rfl
    · simp at h
  · rintro rfl
    have hBytes : (⟨text.toUTF8.data.toList.toArray⟩ : ByteArray) = text.toByteArray := by simp
    rw [dif_pos (hBytes ▸ text.isValidUTF8)]
    simp [String.fromUTF8]

/-! ## Directories and what they hold -/

/-- A path leads to a directory with no links below it, which holds the given entries. -/
structure Holds (t : FileTree) (path : String) (l : Location) (held : Location → Option Entry) :
    Prop where
  ne_empty : path ≠ ""
  leads : t.LeadsTo path l
  plain : ∀ e ∈ t.entries, l <+: e.1 → e.1 ≠ l → ¬IsLink e.2
  entry : ∀ r, r ≠ [] → t.get? (l ++ r) = held r

def entriesWith (held : Location → Option Entry) (r : Location) (e : Entry) :
    Location → Option Entry :=
  fun other => if other = r then some e else held other

@[simp] theorem entriesWith_self (r : Location) (e : Entry) : entriesWith held r e r = some e :=
  if_pos rfl

theorem entriesWith_of_ne {r other : Location} (h : other ≠ r) (e : Entry) :
    entriesWith held r e other = held other :=
  if_neg h

def entriesWithout (held : Location → Option Entry) (r : Location) : Location → Option Entry :=
  fun other => if r <+: other then none else held other

theorem Holds.not_isLink (h : t.Holds path l held) {r : Location} (hr : r ≠ []) {e : Entry}
    (he : held r = some e) : ¬IsLink e := by
  rw [← h.entry r hr] at he
  have hBelow : l ++ r ≠ l := by simpa using hr
  exact h.plain _ (mem_of_get? (by simp [hr]) he) (List.prefix_append l r) hBelow

theorem linkBudget_eq {t t' : FileTree} (h : longestTarget t'.entries 0 = longestTarget t.entries 0) :
    t'.linkBudget = t.linkBudget := by
  rw [linkBudget, linkBudget, h]

theorem Holds.put (h : t.Holds path l held) {r : Location} (hr : r ≠ []) {e : Entry}
    (he : ¬IsLink e) (hOld : held r ≠ some .directory) :
    (t.put (l ++ r) e).Holds path l (entriesWith held r e) := by
  have hRoot : l ++ r ≠ [] := by simp [hr]
  have hBelow : l ++ r ≠ l := by simpa using hr
  have hKeeps : t.Keeps (t.put (l ++ r) e) := by
    intro l' e' hPlain he'
    rw [get?_put hRoot, if_neg]
    · exact he'
    · rintro rfl
      rw [h.entry r hr] at he'
      rcases hPlain with rfl | hLink
      · exact hOld he'
      · exact h.not_isLink hr he' hLink
  have hBudget : (t.put (l ++ r) e).linkBudget = t.linkBudget := by
    refine linkBudget_eq ?_
    rw [FileTree.put, longestTarget_append_single he, longestTarget_filter]
    intro old hMem hLink
    rw [bne_iff_ne]
    intro hSame
    exact h.plain old hMem (hSame ▸ List.prefix_append l r) (hSame ▸ hBelow) hLink
  refine ⟨h.ne_empty, h.leads.keeps hKeeps hBudget rfl, ?_, ?_⟩
  · intro old hMem hPrefix hNe
    rcases List.mem_append.mp hMem with hMem | hMem
    · exact h.plain old (List.mem_of_mem_filter hMem) hPrefix hNe
    · rw [List.mem_singleton] at hMem
      exact hMem ▸ he
  · intro other hOther
    rw [get?_put hRoot, entriesWith, h.entry other hOther]
    simp

theorem Holds.drop (h : t.Holds path l held) {r : Location} (hr : r ≠ [])
    (hOld : ∀ below, held (r ++ below) ≠ some .directory) :
    (t.drop (l ++ r)).Holds path l (entriesWithout held r) := by
  have hRoot : l ++ r ≠ [] := by simp [hr]
  have hKeeps : t.Keeps (t.drop (l ++ r)) := by
    intro l' e' hPlain he'
    rw [get?_drop hRoot, if_neg]
    · exact he'
    · rintro ⟨below, rfl⟩
      have hNonempty : r ++ below ≠ [] := by simp [hr]
      rw [List.append_assoc, h.entry _ hNonempty] at he'
      rcases hPlain with rfl | hLink
      · exact hOld below he'
      · exact h.not_isLink hNonempty he' hLink
  have hBudget : (t.drop (l ++ r)).linkBudget = t.linkBudget := by
    refine linkBudget_eq ?_
    rw [FileTree.drop, longestTarget_filter]
    intro old hMem hLink
    rw [Bool.not_eq_true', ← Bool.not_eq_true, List.isPrefixOf_iff_prefix]
    rintro ⟨below, hBelow⟩
    refine h.plain old hMem ⟨r ++ below, by rw [← hBelow, List.append_assoc]⟩ ?_ hLink
    intro hSame
    rw [hSame, List.append_assoc] at hBelow
    simp [hr] at hBelow
  refine ⟨h.ne_empty, h.leads.keeps hKeeps hBudget rfl, ?_, ?_⟩
  · intro old hMem
    exact h.plain old (List.mem_of_mem_filter hMem)
  · intro other hOther
    rw [get?_drop hRoot, entriesWithout, h.entry other hOther]
    simp

/-! ## Names below the directory -/

variable {front : List String} {last : String}

/-- What a path of names is looked up as, if all but the last are directories. -/
def entryLookup (l : Location) : Option Entry → Lookup
  | none => .missing l
  | some e => .found l e

theorem follow_directories {base : Location} {followLast : Bool} {n links : Nat}
    (hPlain : ∀ name ∈ front ++ [last], IsPlain name)
    (hFront : ∀ r, r ≠ [] → r <+: front → t.get? (base ++ r) = some .directory)
    (hLast : ∀ e, t.get? (base ++ front ++ [last]) = some e → ¬IsLink e) :
    t.follow followLast (front.length + 1 + 1 + n) links base (front ++ [last]) =
      some (entryLookup (base ++ front ++ [last]) (t.get? (base ++ front ++ [last]))) := by
  induction front generalizing base with
  | nil =>
    have hName := hPlain last (by simp)
    rw [List.append_nil] at hLast ⊢
    rw [List.nil_append, List.length_nil, Nat.zero_add, Nat.add_comm, ← Nat.add_assoc,
      follow_name hName.ne_current hName.ne_parent]
    cases hHere : t.get? (base ++ [last]) with
    | none => rfl
    | some e =>
      cases e with
      | directory =>
        have hFound : t.follow followLast (n + 1) links (base ++ [last]) [] =
            some (.found (base ++ [last]) .directory) := by
          rw [follow_nil, hHere]
          rfl
        exact hFound
      | file content => rfl
      | link target => exact absurd ⟨target, rfl⟩ (hLast _ hHere)
  | cons name rest ih =>
    have hName := hPlain name (by simp)
    have hHere := hFront [name] (by simp) (by simp)
    have hLength : (name :: rest).length + 1 + 1 + n = rest.length + 1 + 1 + n + 1 := by
      rw [List.length_cons]
      omega
    rw [hLength, List.cons_append, follow_name hName.ne_current hName.ne_parent, hHere]
    have hLocation : base ++ name :: rest = base ++ [name] ++ rest := by simp
    rw [hLocation] at hLast ⊢
    refine ih (fun m hm => hPlain m (List.mem_cons_of_mem _ hm)) ?_ hLast
    intro r hr hPrefix
    rw [List.append_assoc]
    exact hFront _ (by simp) (by simpa using hPrefix)

theorem follow_obstructed {base : Location} {followLast : Bool} {n links : Nat}
    (hPlain : ∀ name ∈ front ++ [last], IsPlain name)
    (hFront : ¬∀ r, r ≠ [] → r <+: front → t.get? (base ++ r) = some .directory)
    (hLinks : ∀ r e, r ≠ [] → t.get? (base ++ r) = some e → ¬IsLink e) :
    t.follow followLast n links base (front ++ [last]) = none := by
  induction front generalizing base n with
  | nil =>
    refine absurd ?_ hFront
    intro r hr hPrefix
    exact absurd (List.prefix_nil.mp hPrefix) hr
  | cons name rest ih =>
    cases n with
    | zero => rfl
    | succ n =>
      have hName := hPlain name (by simp)
      have hMore : (rest ++ [last]).isEmpty = false := by simp
      rw [List.cons_append, follow_name hName.ne_current hName.ne_parent, hMore]
      cases hHere : t.get? (base ++ [name]) with
      | none => rfl
      | some e =>
        cases e with
        | directory =>
          refine ih (fun m hm => hPlain m (List.mem_cons_of_mem _ hm)) ?_ ?_
          · intro hRest
            refine hFront ?_
            intro r hr hPrefix
            obtain ⟨first, tail, rfl⟩ := List.exists_cons_of_ne_nil hr
            obtain ⟨rfl, hTail⟩ := List.cons_prefix_cons.mp hPrefix
            by_cases hEmpty : tail = []
            · rw [hEmpty, hHere]
            · have hBelow := hRest tail hEmpty hTail
              rwa [List.append_assoc] at hBelow
          · intro r e hr
            rw [List.append_assoc]
            exact hLinks _ e (by simp)
        | file content => rfl
        | link target => exact absurd ⟨target, rfl⟩ (hLinks [name] _ (by simp) hHere)

theorem keeps_refl (t : FileTree) : t.Keeps t := fun _ _ _ h => h

theorem below_ne_empty (hPlain : ∀ name ∈ front ++ [last], IsPlain name) :
    below path (front ++ [last]) ≠ "" := by
  intro hEmpty
  obtain ⟨hFront, hLast⟩ := List.forall_mem_append.mp hPlain
  obtain ⟨before, _, hBelow⟩ := exists_below_eq path hFront
  have hText := hBelow last (hLast last (by simp))
  rw [hEmpty] at hText
  exact (hLast last (by simp)).nonempty (List.append_eq_nil_iff.mp hText.symm).2

theorem start_below (hPath : path ≠ "") (hPlain : ∀ name ∈ front ++ [last], IsPlain name)
    (base : Location) : t.start (below path (front ++ [last])) base = t.start path base := by
  have hNonempty : path.toList ≠ [] := by simpa using hPath
  have hSame : "/".toList.isPrefixOf (below path (front ++ [last])).toList =
      "/".toList.isPrefixOf path.toList := by
    rw [toList_below hPlain]
    unfold opened
    split
    · exact isPrefixOf_append hNonempty
    · rw [List.append_assoc]
      exact isPrefixOf_append hNonempty
  rw [start, start, hSame]

theorem Holds.exists_lookup (h : t.Holds path l held)
    (hPlain : ∀ name ∈ front ++ [last], IsPlain name) :
    ∃ n links, ∀ followLast, t.lookup (below path (front ++ [last])) followLast =
      t.follow followLast (front.length + 1 + 1 + n) links l (front ++ [last]) := by
  obtain ⟨_, n, links, hThrough⟩ := follow_through t.keeps_refl h.leads
  refine ⟨n, links, fun followLast => ?_⟩
  have hRest := hThrough followLast (front ++ [last]).length (front ++ [last]) (by simp)
  have hFuel : (named path ++ (front ++ [last])).length + t.linkBudget + 2 =
      (named path).length + t.linkBudget + 2 + (front ++ [last]).length := by
    rw [List.length_append]
    omega
  have hSpent : n + 1 + (front ++ [last]).length = front.length + 1 + 1 + n := by
    rw [List.length_append, List.length_singleton]
    omega
  rw [lookup_of_ne (below_ne_empty hPlain), steps_below path (by simp) hPlain,
    start_below h.ne_empty hPlain, hFuel, hRest, hSpent]

theorem Holds.lookup_eq (h : t.Holds path l held) (hPlain : ∀ name ∈ front ++ [last], IsPlain name)
    (hFront : ∀ r, r ≠ [] → r <+: front → held r = some .directory) (followLast : Bool) :
    t.lookup (below path (front ++ [last])) followLast =
      some (entryLookup (l ++ (front ++ [last])) (held (front ++ [last]))) := by
  obtain ⟨n, links, hLookup⟩ := h.exists_lookup hPlain
  have hLast := h.entry (front ++ [last]) (by simp)
  rw [← List.append_assoc] at hLast
  rw [hLookup, follow_directories hPlain, hLast, List.append_assoc]
  · intro r hr hPrefix
    rw [h.entry r hr]
    exact hFront r hr hPrefix
  · intro e he
    rw [hLast] at he
    exact h.not_isLink (by simp) he

theorem Holds.lookup_eq_none (h : t.Holds path l held)
    (hPlain : ∀ name ∈ front ++ [last], IsPlain name)
    (hFront : ¬∀ r, r ≠ [] → r <+: front → held r = some .directory) (followLast : Bool) :
    t.lookup (below path (front ++ [last])) followLast = none := by
  obtain ⟨n, links, hLookup⟩ := h.exists_lookup hPlain
  rw [hLookup]
  refine follow_obstructed hPlain ?_ ?_
  · intro hAll
    refine hFront fun r hr hPrefix => ?_
    rw [← h.entry r hr]
    exact hAll r hr hPrefix
  · intro r e hr he
    rw [h.entry r hr] at he
    exact h.not_isLink hr he

/-! ## Making directories -/

/-- The same entries, and directories on the way down to a place. -/
def entriesDownTo (held : Location → Option Entry) (names : Location) : Location → Option Entry :=
  fun other => if other <+: names then some .directory else held other

theorem Holds.congr {held' : Location → Option Entry} (h : t.Holds path l held)
    (hSame : ∀ r, r ≠ [] → held r = held' r) : t.Holds path l held' :=
  { h with entry := fun r hr => (h.entry r hr).trans (hSame r hr) }

theorem missingDirectory?_below (hPlain : ∀ name ∈ front ++ [last], IsPlain name) :
    t.missingDirectory? (below path (front ++ [last])) =
      match t.lookup (below path (front ++ [last])) false with
      | some (.missing l) => some l
      | _ => none := by
  refine missingDirectory?_of_last ?_
  obtain ⟨hFront, hLast⟩ := List.forall_mem_append.mp hPlain
  obtain ⟨before, _, hBelow⟩ := exists_below_eq path hFront
  obtain ⟨inner, c, hChars, hc⟩ := (hLast last (by simp)).exists_last
  rw [hBelow last (hLast last (by simp)), hChars, ← List.append_assoc, List.getLast?_concat]
  simpa using hc

theorem makeDirectories?_of_missing {name : String} {fuel : Nat} (hName : name ≠ "")
    (h : t.missingDirectory? name = some l) :
    makeDirectories? (fuel + 1) t name = some (t.put l .directory) := by
  rw [makeDirectories?, if_neg (by simpa using hName), h]

theorem makeDirectories?_of_isDirectory {name : String} {fuel : Nat} (hName : name ≠ "")
    (hMissing : t.missingDirectory? name = none) (h : t.isDirectory name = true) :
    makeDirectories? (fuel + 1) t name = some t := by
  rw [makeDirectories?, if_neg (by simpa using hName), hMissing]
  exact if_pos h

theorem makeDirectories?_of_parent {t' t'' : FileTree} {name parent : String} {fuel : Nat}
    (hName : name ≠ "") (hLookup : ∀ followLast, t.lookup name followLast = none)
    (hMissing : t.missingDirectory? name = none) (hParent : parent? name = some parent)
    (h : makeDirectories? fuel t parent = some t')
    (hLast : (t'.missingDirectory? name = some l ∧ t'' = t'.put l .directory) ∨
      (t'.missingDirectory? name = none ∧ t'.isDirectory name = true ∧ t'' = t')) :
    makeDirectories? (fuel + 1) t name = some t'' := by
  have hNone : t.isDirectory name = false := by
    rw [isDirectory, entry?, hLookup]
  rw [makeDirectories?, if_neg (by simpa using hName), hMissing]
  rcases hLast with ⟨hMade, rfl⟩ | ⟨hMade, hDirectory, rfl⟩
  · simp only [hNone, Bool.false_eq_true, if_false, hLookup, hParent, h, hMade]
  · simp only [hNone, Bool.false_eq_true, if_false, hLookup, hParent, h, hMade, hDirectory, if_true]

theorem Holds.exists_put_directory (h : t.Holds path l held)
    (hPlain : ∀ name ∈ front ++ [last], IsPlain name)
    (hFront : ∀ r, r ≠ [] → r <+: front → held r = some .directory)
    (hFree : held (front ++ [last]) = none ∨ held (front ++ [last]) = some .directory) :
    ∃ t', t'.Holds path l (entriesDownTo held (front ++ [last])) ∧
      ((t.missingDirectory? (below path (front ++ [last])) = some (l ++ (front ++ [last])) ∧
          t' = t.put (l ++ (front ++ [last])) .directory) ∨
        (t.missingDirectory? (below path (front ++ [last])) = none ∧
          t.isDirectory (below path (front ++ [last])) = true ∧ t' = t)) := by
  have hDown : ∀ r, r ≠ [] → r ≠ front ++ [last] →
      held r = entriesDownTo held (front ++ [last]) r := by
    intro r hr hOther
    unfold entriesDownTo
    split
    · rename_i hPrefix
      rw [hFront r hr]
      exact (List.prefix_concat_iff.mp hPrefix).resolve_left hOther
    · rfl
  rcases hFree with hNone | hDirectory
  · refine ⟨_, (h.put (by simp) (by simp [IsLink]) (by simp [hNone])).congr ?_, .inl ⟨?_, rfl⟩⟩
    · intro r hr
      unfold entriesWith
      split
      · rename_i hSame
        simp [entriesDownTo, hSame]
      · exact hDown r hr ‹_›
    · rw [missingDirectory?_below hPlain, h.lookup_eq hPlain hFront, hNone]
      rfl
  · refine ⟨t, h.congr ?_, .inr ⟨?_, ?_, rfl⟩⟩
    · intro r hr
      by_cases hSame : r = front ++ [last]
      · simp [entriesDownTo, hSame, hDirectory]
      · exact hDown r hr hSame
    · rw [missingDirectory?_below hPlain, h.lookup_eq hPlain hFront, hDirectory]
      rfl
    · rw [isDirectory, entry?, h.lookup_eq hPlain hFront, hDirectory]
      rfl

theorem Holds.makeDirectories? (h : t.Holds path l held) {names : List String}
    (hNonempty : names ≠ []) (hPlain : ∀ name ∈ names, IsPlain name)
    (hFree : ∀ r, r ≠ [] → r <+: names → held r = none ∨ held r = some .directory)
    {fuel : Nat} (hFuel : names.length ≤ fuel) :
    ∃ t', FileTree.makeDirectories? fuel t (below path names) = some t' ∧
      t'.Holds path l (entriesDownTo held names) := by
  induction names using List.reverseRecOn generalizing fuel with
  | nil => exact absurd rfl hNonempty
  | append_singleton front last ih =>
    obtain ⟨fuel, rfl⟩ : ∃ n, fuel = n + 1 := ⟨fuel - 1, by simp at hFuel; omega⟩
    have hName : below path (front ++ [last]) ≠ "" := below_ne_empty hPlain
    by_cases hFront : ∀ r, r ≠ [] → r <+: front → held r = some .directory
    · obtain ⟨t', hHolds, ⟨hMissing, rfl⟩ | ⟨hMissing, hDirectory, rfl⟩⟩ :=
        h.exists_put_directory hPlain hFront (hFree _ (by simp) (List.prefix_refl _))
      · exact ⟨_, makeDirectories?_of_missing hName hMissing, hHolds⟩
      · exact ⟨_, makeDirectories?_of_isDirectory hName hMissing hDirectory, hHolds⟩
    · have hSome : front ≠ [] := by
        rintro rfl
        refine hFront fun r hr hPrefix => absurd (List.prefix_nil.mp hPrefix) hr
      have hLookup := h.lookup_eq_none hPlain hFront
      have hMissing : t.missingDirectory? (below path (front ++ [last])) = none := by
        rw [missingDirectory?_below hPlain, hLookup]
      obtain ⟨t', hMade, hHolds⟩ := ih hSome (fun m hm => hPlain m (List.mem_append_left _ hm))
        (fun r hr hPrefix => hFree r hr (hPrefix.trans (List.prefix_append _ _)))
        (show front.length ≤ fuel by simp at hFuel; omega)
      have hParent := parent?_below_snoc path hSome hPlain
      obtain ⟨t'', hHolds', hCases⟩ := hHolds.exists_put_directory hPlain
        (fun r _ hPrefix => if_pos hPrefix) (by
          unfold entriesDownTo
          split
          · exact .inr rfl
          · exact hFree _ (by simp) (List.prefix_refl _))
      have hSame : ∀ r, r ≠ [] → entriesDownTo (entriesDownTo held front) (front ++ [last]) r =
          entriesDownTo held (front ++ [last]) r := by
        intro r _
        unfold entriesDownTo
        split
        · rfl
        · rename_i hNot
          rw [if_neg fun hPrefix => hNot (hPrefix.trans (List.prefix_append _ _))]
      exact ⟨t'', makeDirectories?_of_parent hName hLookup hMissing hParent hMade hCases,
        hHolds'.congr hSame⟩

/-! ## Files -/

def HeldDown (held : Location → Option Entry) (front : List String) : Prop :=
  ∀ r, r ≠ [] → r <+: front → held r = some .directory

theorem Holds.write? (h : t.Holds path l held) (hPlain : ∀ name ∈ front ++ [last], IsPlain name)
    (hFront : HeldDown held front) (hFree : held (front ++ [last]) ≠ some .directory)
    (content : List UInt8) :
    ∃ t', t.write? (below path (front ++ [last])) content = some t' ∧
      t'.Holds path l (entriesWith held (front ++ [last]) (.file content)) := by
  refine ⟨_, ?_, h.put (by simp) (by simp [IsLink]) hFree⟩
  rw [FileTree.write?, h.lookup_eq hPlain hFront]
  cases hOld : held (front ++ [last]) with
  | none => rfl
  | some e =>
    cases e with
    | directory => exact absurd hOld hFree
    | file old => rfl
    | link target => exact absurd ⟨target, rfl⟩ (h.not_isLink (by simp) hOld)

theorem Holds.rename? {source target : String} {content : List UInt8} (h : t.Holds path l held)
    (hSource : ∀ name ∈ front ++ [source], IsPlain name)
    (hTarget : ∀ name ∈ front ++ [target], IsPlain name) (hFront : HeldDown held front)
    (hContent : held (front ++ [source]) = some (.file content))
    (hBelow : ∀ names, held (front ++ [source] ++ names) ≠ some .directory)
    (hFree : held (front ++ [target]) ≠ some .directory) :
    ∃ t', t.rename? (below path (front ++ [source])) (below path (front ++ [target])) = some t' ∧
      t'.Holds path l
        (entriesWith (entriesWithout held (front ++ [source])) (front ++ [target]) (.file content)) := by
  have hDropped := h.drop (by simp) hBelow
  have hStays : entriesWithout held (front ++ [source]) (front ++ [target]) ≠ some .directory := by
    unfold entriesWithout
    split
    · simp
    · exact hFree
  refine ⟨_, ?_, hDropped.put (by simp) (by simp [IsLink]) hStays⟩
  rw [FileTree.rename?, h.lookup_eq hSource hFront, h.lookup_eq hTarget hFront, hContent]
  cases hOld : held (front ++ [target]) with
  | none => rfl
  | some e =>
    cases e with
    | directory => exact absurd hOld hFree
    | file old => rfl
    | link target => exact absurd ⟨target, rfl⟩ (h.not_isLink (by simp) hOld)

theorem Holds.read? (h : t.Holds path l held) (hPlain : ∀ name ∈ front ++ [last], IsPlain name)
    (content : List UInt8) :
    t.read? (below path (front ++ [last])) = some content ↔
      HeldDown held front ∧ held (front ++ [last]) = some (.file content) := by
  by_cases hFront : HeldDown held front
  · rw [FileTree.read?, entry?, h.lookup_eq hPlain hFront]
    cases hHeld : held (front ++ [last]) with
    | none => simp [entryLookup]
    | some e => cases e <;> simp [entryLookup, hFront]
  · rw [FileTree.read?, entry?, h.lookup_eq_none hPlain hFront]
    simp [hFront]

theorem Holds.readText? (h : t.Holds path l held) (hPlain : ∀ name ∈ front ++ [last], IsPlain name)
    (text : String) :
    t.readText? (below path (front ++ [last])) = some text ↔
      HeldDown held front ∧ held (front ++ [last]) = some (.file text.toUTF8.toList) := by
  rw [FileTree.readText?, Option.bind_eq_some_iff]
  simp only [h.read? hPlain, fromUTF8?_eq_some_iff]
  simp

theorem Holds.makeAll? (h : t.Holds path l held) (hPlain : ∀ name ∈ front ++ [last], IsPlain name)
    (hFree : ∀ r, r ≠ [] → r <+: front → held r = none ∨ held r = some .directory) :
    ∃ parent t', parent? (below path (front ++ [last])) = some parent ∧
      t.makeAll? parent = some t' ∧ t'.Holds path l (entriesDownTo held front) := by
  by_cases hFront : front = []
  · subst hFront
    obtain ⟨parent, hParent, hNonempty, hStart, n, hNamed⟩ :=
      exists_parent?_below h.ne_empty (hPlain last (by simp))
    have hLeads := h.leads.of_named hStart hNamed
    refine ⟨parent, t, hParent, ?_, h.congr fun r hr => ?_⟩
    · exact makeDirectories?_of_isDirectory hNonempty hLeads.missingDirectory?_eq_none
        (hLeads.isDirectory_eq_true hNonempty)
    · rw [entriesDownTo, if_neg (by simpa using hr)]
  · have hNames : ∀ name ∈ front, IsPlain name := fun n hn => hPlain n (List.mem_append_left _ hn)
    have hFuel : front.length ≤ (below path front).length + 1 :=
      Nat.le_succ_of_le (length_le_below path hNames)
    obtain ⟨t', hMade, hHolds⟩ := h.makeDirectories? hFront hNames hFree hFuel
    exact ⟨_, t', parent?_below_snoc path hFront hPlain, hMade, hHolds⟩

end FileTree
end TraitClient
