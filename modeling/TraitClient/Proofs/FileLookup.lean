import TraitClient.Proofs.FilePaths

/-!
# Looking up paths below a directory

A path to a directory may lead through links.  Whatever is made of plain files and directories below
that directory, the path still leads there, and from there plain names lead straight down.
-/
namespace TraitClient
namespace FileTree

open FilePath

variable {t t' : FileTree} {base l : Location}

def IsLink (e : Entry) : Prop := ∃ target, e = .link target

/-! ## Entries -/

theorem get?_eq_of_ne_nil (h : l ≠ []) :
    t.get? l = (t.entries.find? fun e => e.1 == l).map (·.2) := by
  simp [get?, h]

theorem find?_filter_of_keeps {entries : List (Location × Entry)} {p : Location × Entry → Bool}
    (h : ∀ e, e.1 = l → p e = true) :
    (entries.filter p).find? (fun e => e.1 == l) = entries.find? fun e => e.1 == l := by
  have hSame : (fun e : Location × Entry => decide (p e = true ∧ (e.1 == l) = true)) =
      fun e => e.1 == l := by
    funext e
    by_cases hLocation : e.1 = l
    · simp [hLocation, h e hLocation]
    · simp [hLocation]
  rw [List.find?_filter, hSame]

theorem find?_filter_of_removes {entries : List (Location × Entry)} {p : Location × Entry → Bool}
    (h : ∀ e, e.1 = l → p e = false) : (entries.filter p).find? (fun e => e.1 == l) = none := by
  rw [List.find?_eq_none]
  intro e he
  rw [beq_iff_eq]
  intro hLocation
  rw [List.mem_filter, h e hLocation] at he
  exact Bool.false_ne_true he.2

theorem get?_put (h : l ≠ []) (e : Entry) (other : Location) :
    (t.put l e).get? other = if other = l then some e else t.get? other := by
  by_cases hRoot : other = []
  · subst hRoot
    simp [get?, Ne.symm h]
  rw [get?_eq_of_ne_nil hRoot, get?_eq_of_ne_nil hRoot, put, List.find?_append]
  split
  · rename_i hSame
    subst hSame
    rw [find?_filter_of_removes (by simp)]
    simp
  · rename_i hOther
    rw [find?_filter_of_keeps (by rintro old rfl; simpa using hOther)]
    simp [Ne.symm hOther]

theorem get?_drop (h : l ≠ []) (other : Location) :
    (t.drop l).get? other = if l <+: other then none else t.get? other := by
  by_cases hRoot : other = []
  · subst hRoot
    simp [get?, h]
  rw [get?_eq_of_ne_nil hRoot, get?_eq_of_ne_nil hRoot, drop]
  split
  · rename_i hBelow
    rw [find?_filter_of_removes]
    · rfl
    · rintro e rfl
      simpa using hBelow
  · rename_i hAway
    rw [find?_filter_of_keeps]
    rintro e rfl
    rw [Bool.not_eq_true', ← Bool.not_eq_true, List.isPrefixOf_iff_prefix]
    exact hAway

theorem mem_of_get? {e : Entry} (hRoot : l ≠ []) (h : t.get? l = some e) : (l, e) ∈ t.entries := by
  rw [get?_eq_of_ne_nil hRoot, Option.map_eq_some_iff] at h
  obtain ⟨found, hFound, rfl⟩ := h
  have hLocation := List.find?_some hFound
  rw [beq_iff_eq] at hLocation
  exact hLocation ▸ List.mem_of_find?_eq_some hFound

/-! ## How far paths are followed -/

def longestTarget (entries : List (Location × Entry)) (n : Nat) : Nat :=
  entries.foldl (fun n e => match e.2 with
    | .link target => max n (steps target).length
    | _ => n) n

def linkBudget (t : FileTree) : Nat := linkLimit * (longestTarget t.entries 0 + 1)

theorem stepLimit_eq (t : FileTree) (path : String) :
    t.stepLimit path = (steps path).length + t.linkBudget + 2 := rfl

theorem longestTarget_filter {p : Location × Entry → Bool} {entries : List (Location × Entry)}
    (h : ∀ e ∈ entries, IsLink e.2 → p e = true) (n : Nat) :
    longestTarget (entries.filter p) n = longestTarget entries n := by
  induction entries generalizing n with
  | nil => rfl
  | cons e rest ih =>
    have hRest := ih fun e he => h e (List.mem_cons_of_mem _ he)
    by_cases hKept : p e = true
    · rw [List.filter_cons_of_pos hKept]
      exact hRest _
    · rw [List.filter_cons_of_neg hKept, hRest]
      have hPlain : ¬IsLink e.2 := fun hLink => hKept (h e List.mem_cons_self hLink)
      unfold longestTarget
      rw [List.foldl_cons]
      split
      · exact absurd ⟨_, ‹_›⟩ hPlain
      · rfl

theorem longestTarget_append_single {e : Location × Entry} (h : ¬IsLink e.2)
    (entries : List (Location × Entry)) (n : Nat) :
    longestTarget (entries ++ [e]) n = longestTarget entries n := by
  rw [longestTarget, List.foldl_append, List.foldl_cons, List.foldl_nil]
  split
  · exact absurd ⟨_, ‹_›⟩ h
  · rfl

/-! ## Following steps -/

section Follow

variable {followLast : Bool} {n links : Nat} {step : String} {rest : List String}

theorem follow_nil :
    t.follow followLast (n + 1) links base [] = (t.get? base).map (.found base) := rfl

theorem follow_current :
    t.follow followLast (n + 1) links base ("." :: rest) = t.follow followLast n links base rest :=
  rfl

theorem follow_parent :
    t.follow followLast (n + 1) links base (".." :: rest) =
      t.follow followLast n links base.dropLast rest :=
  rfl

theorem follow_name (hCurrent : step ≠ ".") (hParent : step ≠ "..") :
    t.follow followLast (n + 1) links base (step :: rest) =
      match t.get? (base ++ [step]) with
      | none => if rest.isEmpty then some (.missing (base ++ [step])) else none
      | some .directory => t.follow followLast n links (base ++ [step]) rest
      | some (.file content) =>
        if rest.isEmpty then some (.found (base ++ [step]) (.file content)) else none
      | some (.link target) =>
        if rest.isEmpty && !followLast then some (.found (base ++ [step]) (.link target))
        else if links = 0 || target.isEmpty then none
        else t.follow followLast n (links - 1) (t.start target base) (steps target ++ rest) :=
  (if_neg (by simpa using hCurrent)).trans (if_neg (by simpa using hParent))

end Follow

def Keeps (t t' : FileTree) : Prop :=
  ∀ l e, (e = .directory ∨ IsLink e) → t.get? l = some e → t'.get? l = some e

/-- A path to a directory reads no files, so that in any tree with the same directories and links
a longer path goes on from there. -/
theorem follow_through (hKeeps : t.Keeps t') {n links : Nat} {path : List String}
    (h : t.follow true n links base path = some (.found l .directory)) :
    t.get? l = some .directory ∧ ∃ n' links', ∀ followLast extra rest, rest ≠ [] →
      t'.follow followLast (n + extra) links base (path ++ rest) =
        t'.follow followLast (n' + 1 + extra) links' l rest := by
  induction n generalizing links base path with
  | zero => simp [follow] at h
  | succ n ih =>
    cases path with
    | nil =>
      rw [follow_nil, Option.map_eq_some_iff] at h
      obtain ⟨e, hEntry, hFound⟩ := h
      injection hFound with hBase hDirectory
      subst hBase hDirectory
      exact ⟨hEntry, n, links, fun _ _ _ _ => rfl⟩
    | cons step tail =>
      by_cases hCurrent : step = "."
      · subst hCurrent
        rw [follow_current] at h
        obtain ⟨hEntry, n', links', hThrough⟩ := ih h
        refine ⟨hEntry, n', links', fun followLast extra rest hRest => ?_⟩
        rw [← hThrough followLast extra rest hRest, Nat.succ_add]
        exact follow_current
      by_cases hParent : step = ".."
      · subst hParent
        rw [follow_parent] at h
        obtain ⟨hEntry, n', links', hThrough⟩ := ih h
        refine ⟨hEntry, n', links', fun followLast extra rest hRest => ?_⟩
        rw [← hThrough followLast extra rest hRest, Nat.succ_add]
        exact follow_parent
      rw [follow_name hCurrent hParent] at h
      cases hHere : t.get? (base ++ [step]) with
      | none =>
        simp only [hHere] at h
        split at h <;> simp at h
      | some e =>
        cases e with
        | directory =>
          simp only [hHere] at h
          obtain ⟨hEntry, n', links', hThrough⟩ := ih h
          refine ⟨hEntry, n', links', fun followLast extra rest hRest => ?_⟩
          rw [← hThrough followLast extra rest hRest, Nat.succ_add, List.cons_append,
            follow_name hCurrent hParent, hKeeps _ _ (.inl rfl) hHere]
        | file content =>
          simp only [hHere] at h
          split at h <;> simp at h
        | link target =>
          simp only [hHere, Bool.not_true, Bool.and_false, Bool.false_eq_true, if_false] at h
          split at h
          · simp at h
          · rename_i hLinks
            obtain ⟨hEntry, n', links', hThrough⟩ := ih h
            refine ⟨hEntry, n', links', fun followLast extra rest hRest => ?_⟩
            -- More steps come behind the link, so that it is not the last one.
            have hMore : (tail ++ rest).isEmpty = false := by simp [hRest]
            rw [← hThrough followLast extra rest hRest, Nat.succ_add, List.cons_append,
              follow_name hCurrent hParent, hKeeps _ _ (.inr ⟨target, rfl⟩) hHere, List.append_assoc]
            simp only [hMore, Bool.false_and, Bool.false_eq_true, if_false, if_neg hLinks]
            rfl

theorem follow_append_current {n links : Nat} {path : List String} :
    t.follow true (n + 1) links base (path ++ ["."]) = some (.found l .directory) ↔
      t.follow true n links base path = some (.found l .directory) := by
  induction n generalizing links base path with
  | zero =>
    cases path with
    | nil => exact Iff.rfl
    | cons step tail =>
      by_cases hCurrent : step = "."
      · subst hCurrent
        exact Iff.rfl
      by_cases hParent : step = ".."
      · subst hParent
        exact Iff.rfl
      rw [List.cons_append, follow_name hCurrent hParent]
      cases hHere : t.get? (base ++ [step]) with
      | none => simp [follow]
      | some e => cases e <;> simp [follow]
  | succ n ih =>
    cases path with
    | nil => exact Iff.rfl
    | cons step tail =>
      by_cases hCurrent : step = "."
      · subst hCurrent
        exact ih
      by_cases hParent : step = ".."
      · subst hParent
        exact ih
      rw [List.cons_append, follow_name hCurrent hParent, follow_name hCurrent hParent]
      cases hHere : t.get? (base ++ [step]) with
      | none => simp
      | some e =>
        cases e with
        | directory => exact ih
        | file content => simp
        | link target =>
          simp only [Bool.not_true, Bool.and_false, Bool.false_eq_true, if_false]
          split
          · rfl
          · rw [← List.append_assoc]
            exact ih

theorem follow_append_replicate {n links k : Nat} {path : List String} :
    t.follow true (n + k) links base (path ++ List.replicate k ".") = some (.found l .directory) ↔
      t.follow true n links base path = some (.found l .directory) := by
  induction k with
  | zero => simp
  | succ k ih =>
    rw [List.replicate_succ', ← List.append_assoc, ← Nat.add_assoc, follow_append_current, ih]

theorem follow_missing {n links : Nat} {path : List String}
    (h : t.follow false n links base path = some (.missing l)) :
    t.follow true n links base path = some (.missing l) := by
  induction n generalizing links base path with
  | zero => simp [follow] at h
  | succ n ih =>
    cases path with
    | nil => exact h
    | cons step tail =>
      by_cases hCurrent : step = "."
      · subst hCurrent
        exact ih h
      by_cases hParent : step = ".."
      · subst hParent
        exact ih h
      rw [follow_name hCurrent hParent] at h ⊢
      cases hHere : t.get? (base ++ [step]) with
      | none => simpa [hHere] using h
      | some e =>
        cases e with
        | directory =>
          simp only [hHere] at h
          exact ih h
        | file content => simp [hHere] at h
        | link target =>
          simp only [hHere] at h
          simp only [Bool.not_true, Bool.and_false, Bool.false_eq_true, if_false]
          split at h
          · simp at h
          · split at h
            · simp at h
            · rename_i hLinks
              rw [if_neg hLinks]
              exact ih h

/-! ## Directories -/

/-- A path leads to a directory, if the steps that stay where they are are left out. -/
def LeadsTo (t : FileTree) (path : String) (l : Location) : Prop :=
  t.follow true ((named path).length + t.linkBudget + 2) linkLimit (t.start path t.working)
    (named path) = some (.found l .directory)

theorem lookup_of_ne {path : String} (h : path ≠ "") (followLast : Bool) :
    t.lookup path followLast = t.follow followLast ((steps path).length + t.linkBudget + 2) linkLimit
      (t.start path t.working) (steps path) := by
  rw [lookup, if_neg (by simpa using h), stepLimit_eq]

theorem lookup_eq_found_iff {path : String} (h : path ≠ "") :
    t.lookup path true = some (.found l .directory) ↔ t.LeadsTo path l := by
  rw [lookup_of_ne h, LeadsTo]
  rcases steps_eq path with hSteps | hSteps
  · rw [hSteps]
  · have hLength : (named path ++ ["."]).length + t.linkBudget + 2 =
        (named path).length + t.linkBudget + 2 + 1 := by
      rw [List.length_append, List.length_singleton]
      omega
    rw [hSteps, hLength, follow_append_current]

theorem entry?_eq_iff {path : String} :
    t.entry? path = some (l, .directory) ↔ path ≠ "" ∧ t.LeadsTo path l := by
  constructor
  · intro h
    have hPath : path ≠ "" := by
      rintro rfl
      simp [ entry?, lookup] at h
    refine ⟨hPath, (lookup_eq_found_iff hPath).mp ?_⟩
    unfold entry? at h
    split at h
    · injection h with h
      injection h with hLocation hEntry
      subst hLocation hEntry
      assumption
    · exact absurd h (by simp)
  · rintro ⟨hPath, h⟩
    rw [ entry?, (lookup_eq_found_iff hPath).mpr h]

theorem LeadsTo.isDirectory_eq_true {path : String} (hPath : path ≠ "") (h : t.LeadsTo path l) :
    t.isDirectory path = true := by
  rw [isDirectory, entry?_eq_iff.mpr ⟨hPath, h⟩]

theorem LeadsTo.of_named {path parent : String} {n : Nat} (h : t.LeadsTo path l)
    (hStart : "/".toList.isPrefixOf parent.toList = "/".toList.isPrefixOf path.toList)
    (hNamed : named path = named parent ++ List.replicate n ".") : t.LeadsTo parent l := by
  have hLength : (named path).length + t.linkBudget + 2 =
      (named parent).length + t.linkBudget + 2 + n := by
    rw [hNamed, List.length_append, List.length_replicate]
    omega
  have hSame : t.start path t.working = t.start parent t.working := by
    rw [start, start, hStart]
  rw [LeadsTo, hLength, hNamed, follow_append_replicate, hSame] at h
  exact h

theorem LeadsTo.keeps {path : String} (h : t.LeadsTo path l) (hKeeps : t.Keeps t')
    (hBudget : t'.linkBudget = t.linkBudget) (hWorking : t'.working = t.working) :
    t'.LeadsTo path l := by
  obtain ⟨hEntry, n', links', hThrough⟩ := follow_through hKeeps h
  have hOn := hThrough true 1 ["."] (by simp)
  rw [follow_current, follow_nil, hKeeps _ _ (.inl rfl) hEntry] at hOn
  rw [LeadsTo, hBudget, hWorking]
  exact follow_append_current.mp hOn

theorem stripped_eq_self {reversed : List Char} (h : reversed.head? ≠ some '/') :
    missingDirectory?.named reversed = reversed := by
  unfold missingDirectory?.named
  split
  · simp at h
  · rfl

theorem exists_stripped (reversed : List Char) :
    (missingDirectory?.named reversed).head? ≠ some '/' ∧
      ∃ n, reversed = List.replicate n '/' ++ missingDirectory?.named reversed := by
  induction reversed with
  | nil => exact ⟨by simp [missingDirectory?.named], 0, rfl⟩
  | cons c rest ih =>
    by_cases hSlash : c = '/'
    · subst hSlash
      obtain ⟨hHead, n, hRest⟩ := ih
      refine ⟨hHead, n + 1, ?_⟩
      rw [missingDirectory?.named, List.replicate_succ, List.cons_append, ← hRest]
    · have hHead : (c :: rest).head? ≠ some '/' := by simpa using hSlash
      rw [stripped_eq_self hHead]
      exact ⟨hHead, 0, rfl⟩

theorem missingDirectory?_of_last {path : String} (h : path.toList.getLast? ≠ some '/') :
    t.missingDirectory? path =
      match t.lookup path false with
      | some (.missing l) => some l
      | _ => none := by
  rw [← List.head?_reverse] at h
  have hSame : String.ofList (missingDirectory?.named path.toList.reverse).reverse = path := by
    rw [stripped_eq_self h, List.reverse_reverse, String.ofList_toList]
  exact congrArg (fun name => match t.lookup name false with
    | some (.missing l) => some l
    | _ => none) hSame

theorem named_append_replicate (s : List Char) (n : Nat) :
    named (String.ofList (s ++ List.replicate n '/')) = named (String.ofList s) := by
  induction n with
  | zero => simp
  | succ n ih =>
    rw [List.replicate_succ', ← List.append_assoc, named_append_slash, ih]
    simp [named, splitSlashes]

/-- A directory is not missing, however many slashes are behind its path. -/
theorem LeadsTo.missingDirectory?_eq_none {path : String} (h : t.LeadsTo path l) :
    t.missingDirectory? path = none := by
  obtain ⟨hHead, n, hReversed⟩ := exists_stripped path.toList.reverse
  rw [missingDirectory?]
  generalize missingDirectory?.named path.toList.reverse = reversed at hHead hReversed ⊢
  by_cases hEmpty : reversed = []
  · simp [hEmpty, lookup]
  obtain ⟨c, cs, rfl⟩ := List.exists_cons_of_ne_nil hEmpty
  have hText : path.toList = (c :: cs).reverse ++ List.replicate n '/' := by
    rw [← List.reverse_reverse path.toList, hReversed]
    simp
  have hNamed : named path = named (String.ofList (c :: cs).reverse) ++ List.replicate 0 "." := by
    rw [← String.ofList_toList (s := path), hText, named_append_replicate]
    simp
  have hStart : "/".toList.isPrefixOf (String.ofList (c :: cs).reverse).toList =
      "/".toList.isPrefixOf path.toList := by
    rw [hText, isPrefixOf_append (by simp)]
    exact congrArg _ String.toList_ofList
  have hLeads := h.of_named hStart hNamed
  have hSteps : steps (String.ofList (c :: cs).reverse) = named (String.ofList (c :: cs).reverse) :=
    steps_of_last (by rw [String.toList_ofList, List.reverse_cons]) (by simpa using hHead)
  have hPath : String.ofList (c :: cs).reverse ≠ "" := by
    simp [← String.toList_inj]
  cases hMissing : t.lookup (String.ofList (c :: cs).reverse) false with
  | none => rfl
  | some found =>
    cases found with
    | found => rfl
    | missing l' =>
      rw [lookup_of_ne hPath, hSteps] at hMissing
      rw [LeadsTo, follow_missing hMissing] at hLeads
      simp at hLeads

end FileTree
end TraitClient
