import Mathlib.Data.List.Lex
import Mathlib.Data.String.Basic
import TraitClient.CommandLine.Command
import TraitClient.Proofs.FileChanges

/-!
# Scanned files and excluded paths

An exclude hides the files at the place it leads to and below it.  Where that place is below the
source root, nothing else is hidden; where it is the root itself or above it, no file is left.
-/
namespace TraitClient

open FilePath

variable {t : FileTree} {root : String} {l : Location}

/-! ## Trees without links -/

namespace FileTree

/-- Below a place there are no links, and all names are names of entries. -/
structure IsPlainBelow (t : FileTree) (l : Location) : Prop where
  noLinks : ∀ e ∈ t.entries, l <+: e.1 → e.1 ≠ l → ¬IsLink e.2
  names : ∀ e ∈ t.entries, ∀ r, e.1 = l ++ r → ∀ name ∈ r, IsPlain name

def contents (t : FileTree) (l : Location) : Location → Option Entry := fun r => t.get? (l ++ r)

theorem IsPlainBelow.holds (h : t.IsPlainBelow l) (hRoot : t.entry? root = some (l, .directory)) :
    t.Holds root l (t.contents l) where
  ne_empty := (entry?_eq_iff.mp hRoot).1
  leads := (entry?_eq_iff.mp hRoot).2
  plain := h.noLinks
  entry _ _ := rfl

theorem mem_names {name : String} (h : name ∈ t.names l) : ∃ e ∈ t.entries, e.1 = l ++ [name] := by
  obtain ⟨e, he, hName⟩ := List.mem_filterMap.mp h
  split at hName
  · rename_i hPrefix
    obtain ⟨rest, hRest⟩ := List.isPrefixOf_iff_prefix.mp hPrefix
    rw [← hRest, List.drop_left] at hName
    split at hName
    · injection hName with hName
      exact ⟨e, he, by rw [← hRest, hName]⟩
    · cases hName
  · cases hName

theorem IsPlainBelow.plain_names (h : t.IsPlainBelow l) {r : Location} {name : String}
    (hName : name ∈ t.names (l ++ r)) : ∀ n ∈ r ++ [name], IsPlain n := by
  obtain ⟨e, he, hPlace⟩ := mem_names hName
  exact h.names e he (r ++ [name]) (by rw [hPlace, List.append_assoc])

/-- Whether a path leads to where another one leads, or to something below. -/
def liesIn (t : FileTree) (path out : String) : Bool :=
  (t.canonical? out).any fun k => (t.canonical? path).any (k.isPrefixOf ·)

theorem liesIn_iff {path out : String} : t.liesIn path out = true ↔
    ∃ k l, t.canonical? out = some k ∧ t.canonical? path = some l ∧ k <+: l := by
  rw [liesIn, Option.any_eq_true]
  constructor
  · rintro ⟨k, hOut, hInside⟩
    obtain ⟨l, hPath, hPrefix⟩ := (Option.any_eq_true _ _).mp hInside
    exact ⟨k, l, hOut, hPath, List.isPrefixOf_iff_prefix.mp hPrefix⟩
  · rintro ⟨k, l, hOut, hPath, hPrefix⟩
    refine ⟨k, hOut, ?_⟩
    rw [hPath, Option.any_some]
    exact List.isPrefixOf_iff_prefix.mpr hPrefix

def IsBelow (t : FileTree) (path base : String) : Prop :=
  t.liesIn path base = true ∧ t.liesIn base path = false

end FileTree

namespace Scan

open FileTree

/-! ## Paths of a walk -/

theorem foldl_join_eq {r : List String} (hr : r ≠ []) (hPlain : ∀ n ∈ r, IsPlain n) :
    r.foldl join root = below root r :=
  String.toList_injective (by rw [toList_foldl_join root hr hPlain, toList_below hPlain])

theorem join_foldl (root : String) (r : List String) (name : String) :
    join (r.foldl join root) name = (r ++ [name]).foldl join root := by
  rw [List.foldl_append]
  rfl

theorem lookup_walked (hHolds : t.Holds root l (t.contents l)) {r : Location} {name : String}
    (hDown : HeldDown (t.contents l) r) (hPlain : ∀ n ∈ r ++ [name], IsPlain n) :
    t.lookup ((r ++ [name]).foldl join root) true =
      some (entryLookup (l ++ (r ++ [name])) (t.contents l (r ++ [name]))) := by
  rw [foldl_join_eq (by simp) hPlain, hHolds.lookup_eq hPlain hDown]

def filesAt (t : FileTree) (excluded : List Location) (fuel : Nat) (path : String)
    (here : Location) (name : String) : List String :=
  match t.get? (here ++ [name]) with
  | some .directory => filesBelow t excluded fuel (join path name) (here ++ [name]) (here ++ [name])
  | _ => if t.isFile (join path name) && extension? (join path name) == some "rs" then
      [join path name] else []

theorem filesBelow_succ (excluded : List Location) (fuel : Nat) (path : String) (here : Location) :
    filesBelow t excluded (fuel + 1) path here here = (t.names here).flatMap fun name =>
      if isSkippedName name || excluded.any (·.isPrefixOf (here ++ [name])) then []
      else filesAt t excluded fuel path here name := rfl

/-- A file that a walk comes to is named by the entries on the way, and is where they lead. -/
structure IsWalked (t : FileTree) (root : String) (l r : Location) (file : String) : Prop where
  plain : ∀ n ∈ r, IsPlain n
  ne_nil : r ≠ []
  path : file = r.foldl join root
  place : t.canonical? file = some (l ++ r)

variable {excluded : List Location} {r : Location} {name file : String}

theorem heldDown_snoc (hDown : HeldDown (t.contents l) r)
    (hHere : t.get? (l ++ r ++ [name]) = some .directory) :
    HeldDown (t.contents l) (r ++ [name]) := by
  intro other hOther hPrefix
  rcases List.prefix_concat_iff.mp hPrefix with rfl | hAbove
  · rw [contents, ← List.append_assoc, hHere]
  · exact hDown other hOther hAbove

theorem isWalked_of_isFile (hHolds : t.Holds root l (t.contents l))
    (hDown : HeldDown (t.contents l) r) (hPlain : ∀ n ∈ r ++ [name], IsPlain n)
    (hFile : t.isFile (join (r.foldl join root) name) = true) :
    IsWalked t root l (r ++ [name]) (join (r.foldl join root) name) := by
  refine ⟨hPlain, by simp, join_foldl root r name, ?_⟩
  rw [join_foldl] at hFile ⊢
  rw [isFile, entry?, lookup_walked hHolds hDown hPlain] at hFile
  rw [canonical?, entry?, lookup_walked hHolds hDown hPlain]
  cases hEntry : t.contents l (r ++ [name]) with
  | none => simp [hEntry, entryLookup] at hFile
  | some e => rfl

theorem mem_filesAt {fuel : Nat} {path : String} {here : Location}
    (h : file ∈ filesAt t excluded fuel path here name) :
    (t.get? (here ++ [name]) = some .directory ∧ file ∈ filesBelow t excluded fuel
      (join path name) (here ++ [name]) (here ++ [name])) ∨
    t.isFile (join path name) = true ∧ file = join path name := by
  unfold filesAt at h
  split at h
  · exact .inl ⟨‹_›, h⟩
  · split at h
    · rename_i hFile
      exact .inr ⟨(Bool.and_eq_true_iff.mp hFile).1, List.mem_singleton.mp h⟩
    · cases h

section Walk

variable (hTree : t.IsPlainBelow l) (hHolds : t.Holds root l (t.contents l))

include hTree hHolds

theorem isWalked_of_mem_filesAt {fuel : Nat}
    (ih : ∀ {r file}, HeldDown (t.contents l) r →
      file ∈ filesBelow t excluded fuel (r.foldl join root) (l ++ r) (l ++ r) →
      ∃ rest, IsWalked t root l (r ++ rest) file)
    (hDown : HeldDown (t.contents l) r) (hName : name ∈ t.names (l ++ r))
    (hFile : file ∈ filesAt t excluded fuel (r.foldl join root) (l ++ r) name) :
    ∃ rest, IsWalked t root l (r ++ name :: rest) file := by
  rcases mem_filesAt hFile with ⟨hDirectory, hMore⟩ | ⟨hIsFile, rfl⟩
  · rw [join_foldl, List.append_assoc] at hMore
    obtain ⟨rest, hWalked⟩ := ih (heldDown_snoc hDown hDirectory) hMore
    exact ⟨rest, by rwa [List.append_assoc] at hWalked⟩
  · exact ⟨[], isWalked_of_isFile hHolds hDown (hTree.plain_names hName) hIsFile⟩

theorem isWalked_of_mem {fuel : Nat} (hDown : HeldDown (t.contents l) r)
    (hFile : file ∈ filesBelow t excluded fuel (r.foldl join root) (l ++ r) (l ++ r)) :
    ∃ rest, IsWalked t root l (r ++ rest) file := by
  induction fuel generalizing r file with
  | zero => cases hFile
  | succ fuel ih =>
    rw [filesBelow_succ] at hFile
    obtain ⟨name, hName, hAt⟩ := List.mem_flatMap.mp hFile
    split at hAt
    · cases hAt
    · obtain ⟨rest, hWalked⟩ := isWalked_of_mem_filesAt hTree hHolds ih hDown hName hAt
      exact ⟨name :: rest, hWalked⟩

/-! ## What excludes hide -/

def leadsInto (t : FileTree) (places : List Location) (path : String) : Bool :=
  (t.canonical? path).any fun l => places.any (·.isPrefixOf l)

omit hTree hHolds in
theorem IsWalked.leadsInto_eq (h : IsWalked t root l r file) (places : List Location) :
    leadsInto t places file = places.any (·.isPrefixOf (l ++ r)) := by
  rw [leadsInto, h.place]
  rfl

theorem filter_filesAt_of_excluded {fuel : Nat} (hDown : HeldDown (t.contents l) r)
    (hName : name ∈ t.names (l ++ r))
    (hExcluded : excluded.any (·.isPrefixOf (l ++ r ++ [name])) = true) :
    (filesAt t [] fuel (r.foldl join root) (l ++ r) name).filter (!leadsInto t excluded ·) =
      [] := by
  rw [List.filter_eq_nil_iff]
  intro file hFile
  obtain ⟨rest, hWalked⟩ := isWalked_of_mem_filesAt hTree hHolds
    (isWalked_of_mem hTree hHolds) hDown hName hFile
  obtain ⟨k, hk, hPrefix⟩ := List.any_eq_true.mp hExcluded
  have hInside : k.isPrefixOf (l ++ (r ++ name :: rest)) = true := by
    rw [List.isPrefixOf_iff_prefix] at hPrefix ⊢
    exact hPrefix.trans ⟨rest, by simp⟩
  rw [hWalked.leadsInto_eq, List.any_eq_true.mpr ⟨k, hk, hInside⟩]
  simp

theorem filter_filesAt_of_outside {fuel : Nat}
    (ih : ∀ {r}, HeldDown (t.contents l) r →
      filesBelow t excluded fuel (r.foldl join root) (l ++ r) (l ++ r) =
        (filesBelow t [] fuel (r.foldl join root) (l ++ r) (l ++ r)).filter
          (!leadsInto t excluded ·))
    (hDown : HeldDown (t.contents l) r) (hName : name ∈ t.names (l ++ r))
    (hOutside : excluded.any (·.isPrefixOf (l ++ r ++ [name])) = false) :
    (filesAt t [] fuel (r.foldl join root) (l ++ r) name).filter (!leadsInto t excluded ·) =
      filesAt t excluded fuel (r.foldl join root) (l ++ r) name := by
  unfold filesAt
  split
  · rename_i hDirectory
    have hBelow := ih (heldDown_snoc hDown hDirectory)
    rw [← List.append_assoc, ← join_foldl] at hBelow
    exact hBelow.symm
  · split
    · rename_i hFile
      have hWalked := isWalked_of_isFile hHolds hDown (hTree.plain_names hName)
        (Bool.and_eq_true_iff.mp hFile).1
      rw [List.filter_singleton, hWalked.leadsInto_eq, ← List.append_assoc, hOutside]
      rfl
    · rfl

theorem filesBelow_eq_filter {fuel : Nat} (hDown : HeldDown (t.contents l) r) :
    filesBelow t excluded fuel (r.foldl join root) (l ++ r) (l ++ r) =
      (filesBelow t [] fuel (r.foldl join root) (l ++ r) (l ++ r)).filter
        (!leadsInto t excluded ·) := by
  induction fuel generalizing r with
  | zero => rfl
  | succ fuel ih =>
    rw [filesBelow_succ, filesBelow_succ, List.filter_flatMap]
    refine List.flatMap_congr fun name hName => ?_
    by_cases hSkipped : isSkippedName name = true
    · simp [hSkipped]
    · cases hExcluded : excluded.any (·.isPrefixOf (l ++ r ++ [name])) with
      | true => simp [hSkipped, filter_filesAt_of_excluded hTree hHolds hDown hName hExcluded]
      | false => simp [hSkipped, filter_filesAt_of_outside hTree hHolds ih hDown hName hExcluded]

end Walk

/-! ## The order of files -/

theorem keysBefore_iff (a b : List String) : keysBefore a b = true ↔ a ≤ b := by
  induction a generalizing b with
  | nil =>
    have hFirst : ([] : List String) ≤ b := not_lt.mp List.not_lex_nil
    simp [keysBefore, hFirst]
  | cons x a ih =>
    cases b with
    | nil =>
      have hLast : ([] : List String) < x :: a := List.Lex.nil
      simp [keysBefore, hLast]
    | cons y b =>
      have hLex : y :: b < x :: a ↔ y < x ∨ y = x ∧ b < a := List.cons_lex_cons_iff
      rw [keysBefore, ← not_lt, hLex]
      by_cases h : x = y
      · simp [h, ih]
      · rw [if_neg (by simpa using h), decide_eq_true_iff, not_or, not_and_or, not_lt]
        exact ⟨fun hLess => ⟨hLess.le, .inl (Ne.symm h)⟩, fun hLess => lt_of_le_of_ne hLess.1 h⟩

theorem pathBefore_iff (a b : String) : pathBefore a b = true ↔
    (components a).map nameKey ≤ (components b).map nameKey :=
  keysBefore_iff _ _

theorem pairwise_sorted (files : List String) :
    (files.mergeSort pathBefore).Pairwise fun a b => pathBefore a b = true := by
  refine List.pairwise_mergeSort (fun a b c hab hbc => ?_) (fun a b => ?_) files
  · rw [pathBefore_iff] at hab hbc ⊢
    exact hab.trans hbc
  · rw [Bool.or_eq_true, pathBefore_iff, pathBefore_iff]
    exact le_total _ _

theorem IsWalked.keys (h : IsWalked t root l r file) (hRoot : root ≠ "") :
    (components file).map nameKey = (components root).map nameKey ++ r := by
  have hNames : (r.map PathComponent.normal).map nameKey = r := by
    rw [List.map_map]
    exact List.map_id r
  rw [h.path, foldl_join_eq h.ne_nil h.plain, components_below hRoot h.ne_nil h.plain,
    List.map_append, hNames]

/-- Files that a walk comes to have an order that tells them apart, so that it makes no difference
whether some are left out before or after sorting. -/
theorem mergeSort_filter {files : List String} (hRoot : root ≠ "")
    (hWalked : ∀ file ∈ files, ∃ r, IsWalked t root l r file) (p : String → Bool) :
    (files.filter p).mergeSort pathBefore = (files.mergeSort pathBefore).filter p := by
  refine List.Perm.eq_of_pairwise (fun a b ha hb hab hba => ?_) (pairwise_sorted _)
    ((pairwise_sorted _).filter p)
    ((List.mergeSort_perm _ _).trans ((List.mergeSort_perm _ _).filter p).symm)
  rw [List.mem_mergeSort, List.mem_filter] at ha
  rw [List.mem_filter, List.mem_mergeSort] at hb
  obtain ⟨r, hFirst⟩ := hWalked a ha.1
  obtain ⟨s, hSecond⟩ := hWalked b hb.1
  have hSame := le_antisymm ((pathBefore_iff a b).mp hab) ((pathBefore_iff b a).mp hba)
  rw [hFirst.keys hRoot, hSecond.keys hRoot] at hSame
  rw [hFirst.path, hSecond.path, List.append_cancel_left hSame]

/-! ## Scans with excludes -/

variable {files : List String} {out : String}

theorem leadsInto_filterMap (t : FileTree) (exclude : List String) (file : String) :
    leadsInto t (exclude.filterMap t.canonical?) file = exclude.any (t.liesIn file ·) := by
  have hEach (out : String) : t.liesIn file out = (t.canonical? file).any fun l =>
      (t.canonical? out).any (·.isPrefixOf l) := by
    rw [liesIn]
    cases t.canonical? out <;> cases t.canonical? file <;> rfl
  unfold leadsInto
  cases hFile : t.canonical? file with
  | none => simp [hEach, hFile]
  | some l =>
    rw [Option.any_some, List.any_filterMap]
    refine congrArg exclude.any (funext fun out => ?_)
    rw [hEach, hFile, Option.any_some]
    cases t.canonical? out <;> rfl

theorem sourceFiles?_eq (hRoot : t.entry? root = some (l, .directory)) (exclude : List String) :
    sourceFiles? t root exclude = some ((filesBelow t (exclude.filterMap t.canonical?)
      (t.entries.length + 1) root l l).mergeSort pathBefore) := by
  simp only [sourceFiles?, hRoot]

theorem entry?_of_sourceFiles? {exclude : List String}
    (h : sourceFiles? t root exclude = some files) : ∃ l, t.entry? root = some (l, .directory) := by
  unfold sourceFiles? at h
  split at h
  · exact ⟨_, ‹_›⟩
  · cases h

theorem canonical?_of_directory (hRoot : t.entry? root = some (l, .directory)) :
    t.canonical? root = some l := by
  rw [canonical?, hRoot]
  rfl

theorem heldDown_nil (held : Location → Option Entry) : HeldDown held [] :=
  fun _ hr hPrefix => absurd (List.prefix_nil.mp hPrefix) hr

theorem isWalked_of_mem_root (hTree : t.IsPlainBelow l)
    (hRoot : t.entry? root = some (l, .directory)) {fuel : Nat}
    (hFile : file ∈ filesBelow t excluded fuel root l l) : ∃ r, IsWalked t root l r file := by
  obtain ⟨rest, hWalked⟩ := isWalked_of_mem hTree (hTree.holds hRoot) (r := []) (heldDown_nil _)
    (by rwa [List.foldl_nil, List.append_nil])
  exact ⟨_, hWalked⟩

theorem isWalked_of_sourceFiles? (hTree : t.IsPlainBelow l)
    (hRoot : t.entry? root = some (l, .directory)) {exclude : List String}
    (h : sourceFiles? t root exclude = some files) :
    ∀ file ∈ files, ∃ r, IsWalked t root l r file := by
  rw [sourceFiles?_eq hRoot, Option.some.injEq] at h
  subst h
  intro file hFile
  exact isWalked_of_mem_root hTree hRoot (List.mem_mergeSort.mp hFile)

/-- A scan with excludes finds what one without finds outside of them. -/
theorem sourceFiles?_exclude (hTree : ∀ l, t.canonical? root = some l → t.IsPlainBelow l)
    (exclude : List String) : sourceFiles? t root exclude =
      (sourceFiles? t root []).map (·.filter fun file => !exclude.any (t.liesIn file ·)) := by
  cases hNone : sourceFiles? t root [] with
  | none =>
    unfold sourceFiles? at hNone ⊢
    split at hNone
    · cases hNone
    · rfl
  | some files =>
    obtain ⟨l, hRoot⟩ := entry?_of_sourceFiles? hNone
    have hPlain := hTree l (canonical?_of_directory hRoot)
    have hWalk : filesBelow t (exclude.filterMap t.canonical?) (t.entries.length + 1) root l l =
        (filesBelow t [] (t.entries.length + 1) root l l).filter
          (!leadsInto t (exclude.filterMap t.canonical?) ·) := by
      simpa only [List.foldl_nil, List.append_nil] using
        filesBelow_eq_filter hPlain (hPlain.holds hRoot) (r := []) (heldDown_nil _)
    rw [sourceFiles?_eq hRoot, Option.some.injEq] at hNone
    rw [sourceFiles?_eq hRoot, hWalk, mergeSort_filter (hPlain.holds hRoot).ne_empty
      (fun file hFile => isWalked_of_mem_root hPlain hRoot hFile), ← hNone, Option.map_some]
    refine congrArg some (List.filter_congr fun file _ => ?_)
    rw [leadsInto_filterMap]

theorem sourceFiles?_cons (hTree : ∀ l, t.canonical? root = some l → t.IsPlainBelow l)
    (out : String) (others : List String) : sourceFiles? t root (out :: others) =
      (sourceFiles? t root others).map (·.filter fun file => !t.liesIn file out) := by
  rw [sourceFiles?_exclude hTree, sourceFiles?_exclude hTree others, Option.map_map]
  refine congrArg (Option.map · _) (funext fun files => ?_)
  rw [Function.comp_apply, List.filter_filter]
  refine List.filter_congr fun file _ => ?_
  rw [List.any_cons, Bool.not_or]

theorem IsWalked.liesIn_of_enclosed (h : IsWalked t root l r file)
    (hRoot : t.canonical? root = some l) (hEnclosed : t.liesIn root out = true) :
    t.liesIn file out = true := by
  obtain ⟨k, l', hOut, hSame, hPrefix⟩ := liesIn_iff.mp hEnclosed
  rw [hRoot, Option.some.injEq] at hSame
  subst hSame
  exact liesIn_iff.mpr ⟨k, l ++ r, hOut, h.place, hPrefix.trans (List.prefix_append l r)⟩

theorem IsWalked.liesIn_of_apart (h : IsWalked t root l r file)
    (hRoot : t.canonical? root = some l) (hEnclosed : t.liesIn root out = false)
    (hBelow : t.liesIn out root = false) : t.liesIn file out = false := by
  rw [← Bool.not_eq_true] at hEnclosed hBelow ⊢
  intro hInside
  obtain ⟨k, place, hOut, hPlace, hPrefix⟩ := liesIn_iff.mp hInside
  rw [h.place, Option.some.injEq] at hPlace
  subst hPlace
  rcases List.prefix_or_prefix_of_prefix hPrefix (List.prefix_append l r) with hAbove | hUnder
  · exact hEnclosed (liesIn_iff.mpr ⟨k, l, hOut, hRoot, hAbove⟩)
  · exact hBelow (liesIn_iff.mpr ⟨l, k, hRoot, hOut, hUnder⟩)

end Scan

namespace Generator

def withExclude (g : Generator) (exclude : List String) : Generator :=
  { g with settings := { g.settings with exclude } }

theorem ofSettings_withExclude (s : Settings) (exclude : List String) :
    ofSettings { s with exclude } = (ofSettings s).map (·.withExclude exclude) := by
  simp only [ofSettings, bind, Except.bind]
  cases pathSetting "namespace" s.attributeNamespace with
  | error e => rfl
  | ok space => cases pathSetting "runtime path" s.runtimePath <;> rfl

theorem analyze_withExclude {g : Generator} {exclude : List String}
    (h : Scan.sourceFiles? t root exclude = Scan.sourceFiles? t root g.settings.exclude) :
    (g.withExclude exclude).analyze t root = g.analyze t root := by
  have hExclude : (g.withExclude exclude).settings.exclude = exclude := rfl
  unfold analyze
  rw [hExclude, h]
  rfl

theorem analyze_of_enclosed (hTree : ∀ l, t.canonical? root = some l → t.IsPlainBelow l)
    {g : Generator} {out : String} (hExclude : out ∈ g.settings.exclude)
    (hEnclosed : t.liesIn root out = true) {files : List String}
    (hFiles : Scan.sourceFiles? t root [] = some files) :
    (g.analyze t root).result = .ok ⟨0, [], [], []⟩ := by
  have hNone : Scan.sourceFiles? t root g.settings.exclude = some [] := by
    obtain ⟨l, hRoot⟩ := Scan.entry?_of_sourceFiles? hFiles
    have hPlace := Scan.canonical?_of_directory hRoot
    rw [Scan.sourceFiles?_exclude hTree, hFiles, Option.map_some, Option.some.injEq,
      List.filter_eq_nil_iff]
    intro file hFile
    obtain ⟨r, hWalked⟩ := Scan.isWalked_of_sourceFiles? (hTree l hPlace) hRoot hFiles file hFile
    rw [List.any_eq_true.mpr ⟨out, hExclude, hWalked.liesIn_of_enclosed hPlace hEnclosed⟩]
    exact Bool.false_ne_true
  unfold analyze
  rw [hNone]
  cases g.settings.failFast <;> rfl

end Generator

namespace Scan

/-! ## What excluding the output hides -/

/-- A command that generates code into a directory finds what it finds when it only dumps the
model. -/
def FindsAsDumped (t : FileTree) (root out : String) : Prop :=
  ∀ (a : Arguments) (g dumping : Generator), a.sourceDirectory = root → a.outDirectory = some out →
    Generator.ofSettings a.settings = .ok g →
    Generator.ofSettings { a with outDirectory := none }.settings = .ok dumping →
    g.analyze t root = dumping.analyze t root

/-- Excluding the output hides what lies inside it if it is below the root, and else nothing. -/
structure HidesInside (t : FileTree) (root out : String) : Prop where
  elsewhere : ¬t.IsBelow out root → sourceFiles? t root [out] = sourceFiles? t root []
  found : ¬t.IsBelow out root → FindsAsDumped t root out
  inside : t.IsBelow out root →
    sourceFiles? t root [out] = (sourceFiles? t root []).map (·.filter fun f => !t.liesIn f out)

theorem findsAsDumped_of_sameFiles
    (h : sourceFiles? t root [out] = sourceFiles? t root []) : FindsAsDumped t root out := by
  intro a g dumping _ hOut hGenerator hDumping
  have hSettings : { a with outDirectory := none }.settings = { a.settings with exclude := [] } :=
    rfl
  rw [hSettings, Generator.ofSettings_withExclude, hGenerator] at hDumping
  injection hDumping with hDumping
  have hExclude : g.settings.exclude = [out] := by
    have hKept := Generator.ofSettings_withExclude a.settings a.settings.exclude
    rw [hGenerator] at hKept
    injection hKept with hKept
    have hOnly : a.settings.exclude = [out] := congrArg Option.toList hOut
    exact (congrArg (·.settings.exclude) hKept).trans hOnly
  rw [← hDumping, Generator.analyze_withExclude (by rw [hExclude, h])]

theorem sourceFiles?_eq_iff (hTree : ∀ l, t.canonical? root = some l → t.IsPlainBelow l)
    (hBelow : ¬t.IsBelow out root) :
    sourceFiles? t root [out] = sourceFiles? t root [] ↔
      (t.liesIn root out = true → ∀ files, sourceFiles? t root [] = some files → files = []) := by
  rw [sourceFiles?_cons hTree]
  cases hFiles : sourceFiles? t root [] with
  | none => simp
  | some files =>
    obtain ⟨l, hRoot⟩ := entry?_of_sourceFiles? hFiles
    have hPlace := canonical?_of_directory hRoot
    have hWalked := isWalked_of_sourceFiles? (hTree l hPlace) hRoot hFiles
    rw [Option.map_some, Option.some.injEq, List.filter_eq_self]
    constructor
    · rintro hShown hEnclosed _ ⟨⟩
      refine List.eq_nil_iff_forall_not_mem.mpr fun file hFile => ?_
      obtain ⟨r, hAt⟩ := hWalked file hFile
      have hKept := hShown file hFile
      rw [hAt.liesIn_of_enclosed hPlace hEnclosed] at hKept
      cases hKept
    · intro hEmpty file hFile
      cases hEnclosed : t.liesIn root out with
      | true => simp [hEmpty hEnclosed files rfl] at hFile
      | false =>
        obtain ⟨r, hAt⟩ := hWalked file hFile
        have hApart : t.liesIn out root = false :=
          Bool.eq_false_iff.mpr fun hInside => hBelow ⟨hInside, hEnclosed⟩
        rw [hAt.liesIn_of_apart hPlace hEnclosed hApart]
        rfl

/-- Excluding the output hides nothing else except where the root lies in it, where no file is left
and a run finds nothing. -/
theorem hidesInside_iff (hTree : ∀ l, t.canonical? root = some l → t.IsPlainBelow l)
    (out : String) :
    (∀ exclude, sourceFiles? t root exclude = (sourceFiles? t root []).map
      (·.filter fun file => !exclude.any (t.liesIn file ·))) ∧
    (HidesInside t root out ↔ (t.liesIn root out = true →
      ∀ files, sourceFiles? t root [] = some files → files = [])) ∧
    ∀ (g : Generator) files, out ∈ g.settings.exclude → t.liesIn root out = true →
      sourceFiles? t root [] = some files → (g.analyze t root).result = .ok ⟨0, [], [], []⟩ := by
  refine ⟨sourceFiles?_exclude hTree, ⟨fun h hEnclosed => ?_, fun h => ?_⟩,
    fun g files hExclude hEnclosed hFiles =>
      Generator.analyze_of_enclosed hTree hExclude hEnclosed hFiles⟩
  · have hBelow : ¬t.IsBelow out root := fun hBelow =>
      Bool.false_ne_true (hBelow.2.symm.trans hEnclosed)
    exact (sourceFiles?_eq_iff hTree hBelow).mp (h.elsewhere hBelow) hEnclosed
  · have hSame (hBelow : ¬t.IsBelow out root) := (sourceFiles?_eq_iff hTree hBelow).mpr h
    exact ⟨hSame, fun hBelow => findsAsDumped_of_sameFiles (hSame hBelow),
      fun _ => sourceFiles?_cons hTree out []⟩

def sourceTree : FileTree where
  entries := [(["work"], .directory), (["work", "src"], .directory),
    (["work", "src", "generated"], .directory),
    (["work", "src", "generated", "api_impl.rs"], .file []), (["work", "src", "lib.rs"], .file [])]
  working := ["work"]

theorem sourceTree_noLinks : ∀ e ∈ sourceTree.entries, ¬FileTree.IsLink e.2 := by
  rintro e he ⟨target, hTarget⟩
  simp only [sourceTree, List.mem_cons, List.not_mem_nil, or_false] at he
  rcases he with rfl | rfl | rfl | rfl | rfl <;> cases hTarget

theorem sourceTree_isPlainBelow : sourceTree.IsPlainBelow ["work", "src"] where
  noLinks e he _ _ := sourceTree_noLinks e he
  names := by
    intro e he r hPlace name hName
    have hHeld : name ∈ e.1 := hPlace ▸ List.mem_append_right _ hName
    have hNames : ∀ e ∈ sourceTree.entries, ∀ name ∈ e.1,
        name.toList ≠ [] ∧ '/' ∉ name.toList ∧ name ≠ "." ∧ name ≠ ".." := by decide +kernel
    obtain ⟨hNonempty, hUnbroken, hCurrent, hParent⟩ := hNames e he name hHeld
    exact ⟨hNonempty, hUnbroken, hCurrent, hParent⟩

theorem sourceTree_files (exclude : List String) : sourceFiles? sourceTree "src" exclude =
    some ((filesBelow sourceTree (exclude.filterMap sourceTree.canonical?) 6 "src"
      ["work", "src"] ["work", "src"]).mergeSort pathBefore) :=
  sourceFiles?_eq (by decide +kernel) exclude

theorem sourceTree_hidesInside :
    (∀ l, sourceTree.canonical? "src" = some l → sourceTree.IsPlainBelow l) ∧
      sourceTree.IsBelow "src/generated" "src" ∧
      HidesInside sourceTree "src" "src/generated" ∧
      sourceFiles? sourceTree "src" ["src/generated"] = some ["src/lib.rs"] := by
  have hTree : ∀ l, sourceTree.canonical? "src" = some l → sourceTree.IsPlainBelow l := by
    intro l hRoot
    have hPlace : sourceTree.canonical? "src" = some ["work", "src"] := by decide +kernel
    rw [hPlace, Option.some.injEq] at hRoot
    exact hRoot ▸ sourceTree_isPlainBelow
  have hBelow : sourceTree.IsBelow "src/generated" "src" := ⟨by decide +kernel, by decide +kernel⟩
  have hKept : filesBelow sourceTree (["src/generated"].filterMap sourceTree.canonical?) 6 "src"
      ["work", "src"] ["work", "src"] = ["src/lib.rs"] := by decide +kernel
  refine ⟨hTree, hBelow, (hidesInside_iff hTree "src/generated").2.1.mpr fun hEnclosed => ?_, ?_⟩
  · exact absurd (hBelow.2.symm.trans hEnclosed) Bool.false_ne_true
  · rw [sourceTree_files, hKept, List.mergeSort_singleton]

/-- With the working directory as output, all files of the source directory are hidden. -/
theorem sourceTree_hidesAll :
    (∀ e ∈ sourceTree.entries, ¬FileTree.IsLink e.2) ∧ ¬sourceTree.IsBelow "." "src" ∧
      sourceFiles? sourceTree "src" ["."] = some [] ∧ ¬HidesInside sourceTree "src" "." := by
  have hApart : ¬sourceTree.IsBelow "." "src" := fun hBelow =>
    absurd hBelow.1 (by decide +kernel)
  have hKept : filesBelow sourceTree (["."].filterMap sourceTree.canonical?) 6 "src"
      ["work", "src"] ["work", "src"] = [] := by decide +kernel
  have hHidden : sourceFiles? sourceTree "src" ["."] = some [] := by
    rw [sourceTree_files, hKept, List.mergeSort_nil]
  have hAll : filesBelow sourceTree (([] : List String).filterMap sourceTree.canonical?) 6 "src"
      ["work", "src"] ["work", "src"] = ["src/generated/api_impl.rs", "src/lib.rs"] := by
    decide +kernel
  refine ⟨sourceTree_noLinks, hApart, hHidden, fun hHides => ?_⟩
  have hSame := hHides.elsewhere hApart
  rw [hHidden, sourceTree_files, hAll, Option.some.injEq] at hSame
  have hLength := congrArg List.length hSame
  rw [List.length_mergeSort] at hLength
  cases hLength

end Scan
end TraitClient
