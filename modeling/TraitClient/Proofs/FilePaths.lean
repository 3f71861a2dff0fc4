import Mathlib.Data.List.Basic
import Mathlib.Data.List.Induction
import Mathlib.Data.List.TakeWhile
import TraitClient.Files.Tree

/-!
# Paths below a directory

The text of a path that leads from a directory down by plain names, and what the operations on
paths make of it.
-/
namespace TraitClient
namespace FilePath

/-! ## Pieces of texts -/

theorem splitSlashes_ne_nil (s : List Char) : splitSlashes s ≠ [] := by
  cases s with
  | nil => simp [splitSlashes]
  | cons c rest =>
    by_cases hSlash : c = '/'
    · simp [hSlash, splitSlashes]
    · rw [splitSlashes.eq_3 c rest (by simpa using hSlash)]
      split <;> simp

theorem splitSlashes_cons {c : Char} (h : c ≠ '/') {rest piece : List Char}
    {pieces : List (List Char)} (hRest : splitSlashes rest = piece :: pieces) :
    splitSlashes (c :: rest) = (c :: piece) :: pieces := by
  rw [splitSlashes.eq_3 c rest (by simpa using h), hRest]

theorem splitSlashes_append_slash (a b : List Char) :
    splitSlashes (a ++ '/' :: b) = splitSlashes a ++ splitSlashes b := by
  induction a with
  | nil => rfl
  | cons c rest ih =>
    by_cases hSlash : c = '/'
    · subst hSlash
      simp [splitSlashes, ih]
    · obtain ⟨piece, pieces, hRest⟩ := List.exists_cons_of_ne_nil (splitSlashes_ne_nil rest)
      have hWhole : splitSlashes (rest ++ '/' :: b) = piece :: (pieces ++ splitSlashes b) := by
        rw [ih, hRest, List.cons_append]
      rw [List.cons_append, splitSlashes_cons hSlash hWhole, splitSlashes_cons hSlash hRest,
        List.cons_append]

theorem splitSlashes_of_not_mem {a : List Char} (h : '/' ∉ a) : splitSlashes a = [a] := by
  induction a with
  | nil => rfl
  | cons c rest ih =>
    rw [List.mem_cons, not_or] at h
    exact splitSlashes_cons (Ne.symm h.1) (ih h.2)

/-! ## Names -/

/-- A text that names an entry of a directory, whatever the directory. -/
structure IsPlain (name : String) : Prop where
  nonempty : name.toList ≠ []
  unbroken : '/' ∉ name.toList
  ne_current : name ≠ "."
  ne_parent : name ≠ ".."

def below (base : String) (names : List String) : String := join base (names.foldl join "")

/-- What stands in front of the names in a path below a directory. -/
def opened (base : String) : List Char :=
  if base.isEmpty || "/".toList.isSuffixOf base.toList then base.toList else base.toList ++ ['/']

theorem opened_eq_nil_or (base : String) :
    opened base = [] ∨ ∃ s, opened base = s ++ ['/'] ∧ (base.toList = s ∨ base.toList = s ++ ['/']) := by
  unfold opened
  split
  · rename_i h
    rcases Bool.or_eq_true_iff.mp h with hEmpty | hSlash
    · left
      simpa using hEmpty
    · right
      obtain ⟨s, hs⟩ := List.isSuffixOf_iff_suffix.mp hSlash
      exact ⟨s, hs.symm, .inr hs.symm⟩
  · exact .inr ⟨_, rfl, .inl rfl⟩

theorem exists_opened_eq {base : String} (h : base ≠ "") :
    ∃ s, opened base = s ++ ['/'] ∧ (base.toList = s ∨ base.toList = s ++ ['/']) := by
  refine (opened_eq_nil_or base).resolve_left fun hNil => h ?_
  unfold opened at hNil
  split at hNil
  · simpa using hNil
  · simp at hNil

/-- The text in front of a name ends a piece, so that the name is a piece of its own. -/
theorem opened_of_last {base : String} {before : List Char} {c : Char}
    (hText : base.toList = before ++ [c]) (hc : c ≠ '/') : opened base = base.toList ++ ['/'] := by
  have hEmpty : base.isEmpty = false := by
    rw [Bool.eq_false_iff, ne_eq, String.isEmpty_iff]
    rintro rfl
    simp at hText
  have hSlash : "/".toList.isSuffixOf base.toList = false := by
    rw [Bool.eq_false_iff, ne_eq, List.isSuffixOf_iff_suffix, hText]
    rintro ⟨s, hs⟩
    have hLast := congrArg List.getLast? hs
    simp at hLast
    exact hc hLast.symm
  rw [opened, hEmpty, hSlash]
  rfl

theorem toList_join {base item : String} (h : item.toList.head? ≠ some '/') :
    (join base item).toList = opened base ++ item.toList := by
  have hRelative : "/".toList.isPrefixOf item.toList = false := by
    cases hItem : item.toList with
    | nil => rfl
    | cons c rest =>
      have hc : c ≠ '/' := by simpa [hItem] using h
      simpa [List.isPrefixOf] using Ne.symm hc
  unfold join opened
  rw [hRelative, Bool.or_false]
  by_cases hEmpty : base.isEmpty = true
  · simp [String.isEmpty_iff.mp hEmpty]
  · rw [if_neg hEmpty, Bool.eq_false_iff.mpr hEmpty, Bool.false_or]
    split <;> simp

theorem IsPlain.head? {name : String} (h : IsPlain name) : name.toList.head? ≠ some '/' := by
  obtain ⟨c, cs, hName⟩ := List.exists_cons_of_ne_nil h.nonempty
  have hSlash := h.unbroken
  rw [hName, List.mem_cons, not_or] at hSlash
  simpa [hName] using Ne.symm hSlash.1

theorem IsPlain.exists_last {name : String} (h : IsPlain name) :
    ∃ before c, name.toList = before ++ [c] ∧ c ≠ '/' := by
  refine ⟨name.toList.dropLast, name.toList.getLast h.nonempty,
    (List.dropLast_concat_getLast h.nonempty).symm, ?_⟩
  intro hc
  exact h.unbroken (hc ▸ List.getLast_mem h.nonempty)

theorem isPlain_append {stem suffix : String} (hStem : '/' ∉ stem.toList)
    (hSuffix : '/' ∉ suffix.toList) (hLength : 2 < suffix.length) : IsPlain (stem ++ suffix) := by
  have hLong : 2 < (stem ++ suffix).length := by
    rw [String.length_append]
    omega
  refine ⟨?_, ?_, ?_, ?_⟩
  · intro hEmpty
    rw [← String.length_toList, hEmpty] at hLong
    simp at hLong
  · rw [String.toList_append, List.mem_append, not_or]
    exact ⟨hStem, hSuffix⟩
  · rintro hSame
    rw [hSame] at hLong
    exact absurd hLong (by decide)
  · rintro hSame
    rw [hSame] at hLong
    exact absurd hLong (by decide)

/-! ## Paths of plain names -/

def slashed (names : List String) : List Char := ['/'].intercalate (names.map String.toList)

theorem slashed_singleton (name : String) : slashed [name] = name.toList := by
  simp [slashed]

theorem slashed_cons {name : String} {names : List String} (h : names ≠ []) :
    slashed (name :: names) = name.toList ++ '/' :: slashed names := by
  rw [slashed, List.map_cons, List.intercalate_cons_of_ne_nil (by simpa using h), List.append_assoc]
  rfl

theorem slashed_snoc {names : List String} (h : names ≠ []) (name : String) :
    slashed (names ++ [name]) = slashed names ++ '/' :: name.toList := by
  induction names with
  | nil => exact absurd rfl h
  | cons first rest ih =>
    cases rest with
    | nil => rw [List.singleton_append, slashed_cons (by simp), slashed_singleton, slashed_singleton]
    | cons second rest =>
      rw [List.cons_append, slashed_cons (by simp), slashed_cons (by simp), ih (by simp),
        List.append_assoc, List.cons_append]

theorem head?_slashed {names : List String} (h : ∀ n ∈ names, IsPlain n) :
    (slashed names).head? ≠ some '/' := by
  cases names with
  | nil => simp [slashed]
  | cons first rest =>
    have hFirst := h first (by simp)
    by_cases hRest : rest = []
    · rw [hRest, slashed_singleton]
      exact hFirst.head?
    · obtain ⟨c, cs, hName⟩ := List.exists_cons_of_ne_nil hFirst.nonempty
      have hHead := hFirst.head?
      rw [hName] at hHead
      rw [slashed_cons hRest, hName]
      exact hHead

theorem toList_foldl_join (base : String) {names : List String} (hNonempty : names ≠ [])
    (h : ∀ n ∈ names, IsPlain n) :
    (names.foldl join base).toList = opened base ++ slashed names := by
  induction names generalizing base with
  | nil => exact absurd rfl hNonempty
  | cons first rest ih =>
    have hFirst := h first (by simp)
    have hJoined : (join base first).toList = opened base ++ first.toList :=
      toList_join hFirst.head?
    by_cases hRest : rest = []
    · rw [hRest, List.foldl_cons, List.foldl_nil, hJoined, slashed_singleton]
    · obtain ⟨before, c, hLast, hc⟩ := hFirst.exists_last
      have hOpened : opened (join base first) = (join base first).toList ++ ['/'] := by
        refine @opened_of_last _ (opened base ++ before) c ?_ hc
        rw [hJoined, hLast, List.append_assoc]
      rw [List.foldl_cons, ih _ hRest fun n hn => h n (List.mem_cons_of_mem _ hn), hOpened, hJoined,
        slashed_cons hRest]
      simp

theorem toList_relative {names : List String} (h : ∀ n ∈ names, IsPlain n) :
    (names.foldl join "").toList = slashed names := by
  by_cases hNames : names = []
  · simp [hNames, slashed]
  · rw [toList_foldl_join "" hNames h]
    rfl

theorem toList_below {base : String} {names : List String} (h : ∀ n ∈ names, IsPlain n) :
    (below base names).toList = opened base ++ slashed names := by
  have hText := toList_relative h
  rw [below, toList_join (hText ▸ head?_slashed h), hText]

theorem length_le_slashed {names : List String} (h : ∀ n ∈ names, IsPlain n) :
    names.length ≤ (slashed names).length := by
  induction names with
  | nil => exact Nat.zero_le _
  | cons first rest ih =>
    have hFirst := List.length_pos_of_ne_nil (h first (by simp)).nonempty
    have hRest := ih fun n hn => h n (List.mem_cons_of_mem _ hn)
    by_cases hEmpty : rest = []
    · rw [hEmpty, slashed_singleton]
      exact hFirst
    · rw [slashed_cons hEmpty]
      simp only [List.length_cons, List.length_append]
      omega

theorem length_le_below (base : String) {names : List String} (h : ∀ n ∈ names, IsPlain n) :
    names.length ≤ (below base names).length := by
  rw [← String.length_toList, toList_below h, List.length_append]
  exact Nat.le_add_left_of_le (length_le_slashed h)

theorem splitSlashes_slashed {names : List String} (hNonempty : names ≠ [])
    (h : ∀ n ∈ names, IsPlain n) : splitSlashes (slashed names) = names.map String.toList := by
  induction names with
  | nil => exact absurd rfl hNonempty
  | cons first rest ih =>
    have hFirst := splitSlashes_of_not_mem (h first (by simp)).unbroken
    by_cases hRest : rest = []
    · rw [hRest, slashed_singleton, hFirst]
      rfl
    · rw [slashed_cons hRest, splitSlashes_append_slash, hFirst,
        ih hRest fun n hn => h n (List.mem_cons_of_mem _ hn)]
      rfl

theorem slashed_eq_nil_iff {names : List String} (h : ∀ n ∈ names, IsPlain n) :
    slashed names = [] ↔ names = [] := by
  constructor
  · intro hEmpty
    by_contra hNames
    have hSplit := splitSlashes_slashed hNames h
    rw [hEmpty] at hSplit
    obtain ⟨first, rest, rfl⟩ := List.exists_cons_of_ne_nil hNames
    rw [List.map_cons] at hSplit
    exact (h first (by simp)).nonempty (List.cons.inj hSplit).1.symm
  · rintro rfl
    rfl

theorem relative_injective {a b : List String} (ha : ∀ n ∈ a, IsPlain n)
    (hb : ∀ n ∈ b, IsPlain n) (h : a.foldl join "" = b.foldl join "") : a = b := by
  have hText : slashed a = slashed b := by
    rw [← toList_relative ha, ← toList_relative hb, h]
  by_cases hEmpty : a = []
  · rw [hEmpty] at hText ⊢
    exact ((slashed_eq_nil_iff hb).mp hText.symm).symm
  · have hOther : b ≠ [] := by
      intro hb'
      rw [hb'] at hText
      exact hEmpty ((slashed_eq_nil_iff ha).mp hText)
    have hSplit := splitSlashes_slashed hEmpty ha
    rw [hText, splitSlashes_slashed hOther hb] at hSplit
    exact ((List.map_inj_right fun _ _ hChars => String.toList_injective hChars).mp hSplit).symm

/-! ## Steps -/

/-- The names that a path is made of, `.` and `..` among them. -/
def named (path : String) : List String :=
  ((splitSlashes path.toList).map String.ofList).filter (!·.isEmpty)

theorem steps_eq (path : String) :
    FileTree.steps path = named path ∨ FileTree.steps path = named path ++ ["."] := by
  unfold FileTree.steps named
  split
  · exact .inr rfl
  · exact .inl rfl

theorem steps_of_last {path : String} {before : List Char} {c : Char}
    (hText : path.toList = before ++ [c]) (hc : c ≠ '/') : FileTree.steps path = named path := by
  have hSlash : "/".toList.isSuffixOf path.toList = false := by
    rw [Bool.eq_false_iff, ne_eq, List.isSuffixOf_iff_suffix, hText]
    rintro ⟨s, hs⟩
    have hLast := congrArg List.getLast? hs
    simp at hLast
    exact hc hLast.symm
  simp only [FileTree.steps, hSlash, named]
  rfl

theorem filter_opened (base : String) :
    ((splitSlashes (opened base)).map String.ofList).filter (!·.isEmpty) = named base := by
  unfold opened named
  split
  · rfl
  · rw [splitSlashes_append_slash]
    simp [splitSlashes]

theorem filter_named {names : List String} (h : ∀ n ∈ names, IsPlain n) :
    names.filter (!·.isEmpty) = names := by
  rw [List.filter_eq_self]
  intro n hn
  have hNonempty : n ≠ "" := by
    rintro rfl
    exact (h "" hn).nonempty rfl
  simpa [String.isEmpty_iff] using hNonempty

theorem exists_slashed_eq (names : List String) :
    ∃ before, (before = [] ∨ ∃ s, before = s ++ ['/']) ∧
      ∀ last : String, slashed (names ++ [last]) = before ++ last.toList := by
  by_cases hNames : names = []
  · refine ⟨[], .inl rfl, fun last => ?_⟩
    rw [hNames, List.nil_append, slashed_singleton]
    rfl
  · refine ⟨slashed names ++ ['/'], .inr ⟨_, rfl⟩, fun last => ?_⟩
    rw [slashed_snoc hNames, List.append_assoc, List.singleton_append]

theorem exists_below_eq (base : String) {names : List String} (h : ∀ n ∈ names, IsPlain n) :
    ∃ before, (before = [] ∨ ∃ s, before = s ++ ['/']) ∧
      ∀ last : String, IsPlain last →
        (below base (names ++ [last])).toList = before ++ last.toList := by
  obtain ⟨before, hBefore, hSlashed⟩ := exists_slashed_eq names
  refine ⟨opened base ++ before, ?_, fun last hLast => ?_⟩
  · rcases hBefore with rfl | ⟨s, rfl⟩
    · rw [List.append_nil]
      exact (opened_eq_nil_or base).imp_right fun ⟨s, hs, _⟩ => ⟨s, hs⟩
    · exact .inr ⟨opened base ++ s, (List.append_assoc ..).symm⟩
  · rw [toList_below (List.forall_mem_append.mpr ⟨h, by simpa using hLast⟩), hSlashed,
      List.append_assoc]

theorem named_below (base : String) {names : List String} (hNonempty : names ≠ [])
    (h : ∀ n ∈ names, IsPlain n) : named (below base names) = named base ++ names := by
  have hOpened : ((splitSlashes (opened base ++ slashed names)).map String.ofList).filter
      (!·.isEmpty) = named base ++ names := by
    have hPieces : ((splitSlashes (slashed names)).map String.ofList).filter (!·.isEmpty) =
        names := by
      rw [splitSlashes_slashed hNonempty h, List.map_map]
      simpa using filter_named h
    rcases opened_eq_nil_or base with hNil | ⟨s, hs, _⟩
    · have hBase := filter_opened base
      rw [hNil] at hBase
      rw [hNil, List.nil_append, hPieces, ← hBase]
      simp [splitSlashes]
    · have hBase := filter_opened base
      rw [hs, splitSlashes_append_slash] at hBase
      rw [hs, List.append_assoc, List.singleton_append, splitSlashes_append_slash, List.map_append,
        List.filter_append, hPieces, ← hBase]
      simp [splitSlashes]
  rw [named, toList_below h, hOpened]

theorem steps_below (base : String) {names : List String} (hNonempty : names ≠ [])
    (h : ∀ n ∈ names, IsPlain n) : FileTree.steps (below base names) = named base ++ names := by
  rw [← named_below base hNonempty h]
  obtain ⟨front, last, rfl⟩ := (List.eq_nil_or_concat' names).resolve_left hNonempty
  obtain ⟨hFront, hLast⟩ := List.forall_mem_append.mp h
  obtain ⟨before, _, hText⟩ := exists_below_eq base hFront
  obtain ⟨inner, c, hChars, hc⟩ := (hLast last (by simp)).exists_last
  refine @steps_of_last _ (before ++ inner) c ?_ hc
  rw [hText last (hLast last (by simp)), hChars, List.append_assoc]

/-! ## Taking paths apart -/

theorem trimReversed_name {name : String} (h : IsPlain name) (rest : List Char) :
    trimReversed (name.toList.reverse ++ rest) = name.toList.reverse ++ rest := by
  obtain ⟨before, c, hLast, hc⟩ := h.exists_last
  rw [hLast, List.reverse_append, List.reverse_singleton, List.singleton_append, List.cons_append]
  by_cases hDot : c = '.'
  · subst hDot
    -- a name is not a dot alone, so what stands in front of its last dot is no slash
    have hBefore : before.reverse ≠ [] := by
      intro hEmpty
      rw [List.reverse_eq_nil_iff] at hEmpty
      refine h.ne_current (String.toList_injective ?_)
      rw [hLast, hEmpty]
      rfl
    obtain ⟨d, ds, hd⟩ := List.exists_cons_of_ne_nil hBefore
    have hSlash : d ≠ '/' := by
      rintro rfl
      refine h.unbroken (hLast ▸ List.mem_append_left _ ?_)
      rw [← List.mem_reverse, hd]
      exact List.mem_cons_self
    rw [hd, List.cons_append]
    unfold trimReversed
    split <;> simp_all
  · unfold trimReversed
    split <;> simp_all

theorem dropWhile_name {name : String} (h : IsPlain name) (rest : List Char) :
    (name.toList.reverse ++ '/' :: rest).dropWhile (· != '/') = '/' :: rest := by
  rw [List.dropWhile_append_of_pos]
  · simp
  · intro c hc
    rw [List.mem_reverse] at hc
    rw [bne_iff_ne]
    rintro rfl
    exact h.unbroken hc

theorem trimReversed_slash {rest : List Char} (h : rest ≠ []) :
    trimReversed ('/' :: rest) = trimReversed rest := by
  obtain ⟨c, cs, rfl⟩ := List.exists_cons_of_ne_nil h
  rw [trimReversed]
  simp

theorem parent?_of_name {path name : String} (h : IsPlain name) {before : List Char}
    (hText : path.toList = before ++ '/' :: name.toList) :
    parent? path = some (String.ofList (trimReversed ('/' :: before.reverse)).reverse) := by
  have hReversed : path.toList.reverse = name.toList.reverse ++ '/' :: before.reverse := by
    simp [hText]
  obtain ⟨c, cs, hName⟩ := List.exists_cons_of_ne_nil
    (List.reverse_ne_nil_iff.mpr h.nonempty)
  have hc : c ≠ '/' := by
    rintro rfl
    refine h.unbroken ?_
    rw [← List.mem_reverse, hName]
    exact List.mem_cons_self
  have hDropped := dropWhile_name h before.reverse
  rw [parent?, hReversed, trimReversed_name h]
  rw [hName, List.cons_append] at hDropped ⊢
  rw [← hDropped]
  split
  · simp_all
  · simp_all
  · simp_all

theorem parent?_below_snoc (base : String) {names : List String} {last : String}
    (hNonempty : names ≠ []) (h : ∀ n ∈ names ++ [last], IsPlain n) :
    parent? (below base (names ++ [last])) = some (below base names) := by
  have hNames : ∀ n ∈ names, IsPlain n := fun n hn => h n (List.mem_append_left _ hn)
  have hText : (below base (names ++ [last])).toList =
      (below base names).toList ++ '/' :: last.toList := by
    rw [toList_below h, toList_below hNames, slashed_snoc hNonempty, List.append_assoc]
  obtain ⟨front, name, rfl⟩ := (List.eq_nil_or_concat' names).resolve_left hNonempty
  have hName := hNames name (by simp)
  obtain ⟨before, _, hBelow⟩ := exists_below_eq base (List.forall_mem_append.mp hNames).1
  have hReversed : (below base (front ++ [name])).toList.reverse =
      name.toList.reverse ++ before.reverse := by
    rw [hBelow name hName, List.reverse_append]
  rw [parent?_of_name (h last (by simp)) hText, trimReversed_slash, hReversed,
    trimReversed_name hName, ← hReversed, List.reverse_reverse, String.ofList_toList]
  exact hReversed ▸ List.append_ne_nil_of_left_ne_nil
    (List.reverse_ne_nil_iff.mpr hName.nonempty) _

theorem component?_of_plain {name : String} (h : IsPlain name) :
    component? name.toList = some (.normal name) := by
  unfold component?
  split
  · exact absurd ‹_› h.nonempty
  · exact absurd (String.toList_injective ‹name.toList = ['.']›) h.ne_current
  · exact absurd (String.toList_injective ‹name.toList = ['.', '.']›) h.ne_parent
  · rw [String.ofList_toList]

theorem fileName?_of_name {path name : String} (h : IsPlain name) {before : List Char}
    (hText : path.toList = before ++ name.toList)
    (hBefore : before = [] ∨ ∃ s, before = s ++ ['/']) : fileName? path = some name := by
  have hPieces : ∃ pieces, splitSlashes path.toList = pieces ++ [name.toList] := by
    rcases hBefore with rfl | ⟨s, rfl⟩
    · exact ⟨[], by rw [hText]; exact splitSlashes_of_not_mem h.unbroken⟩
    · refine ⟨splitSlashes s, ?_⟩
      rw [hText, List.append_assoc, List.singleton_append, splitSlashes_append_slash,
        splitSlashes_of_not_mem h.unbroken]
  obtain ⟨pieces, hPieces⟩ := hPieces
  have hLast : (components path).getLast? = some (.normal name) := by
    rw [components, hPieces, List.filterMap_append, ← List.append_assoc]
    simp [component?_of_plain h]
  rw [fileName?, hLast]

theorem withExtension_of_name {path name : String} (h : IsPlain name) {before : List Char}
    (hText : path.toList = before ++ name.toList)
    (hBefore : before = [] ∨ ∃ s, before = s ++ ['/']) (extension : String) :
    (withExtension path extension).toList =
      before ++ ((splitExtension name).1 ++ "." ++ extension).toList := by
  have hReversed : path.toList.reverse = name.toList.reverse ++ before.reverse := by
    rw [hText, List.reverse_append]
  have hDropped : (name.toList.reverse ++ before.reverse).drop name.length = before.reverse := by
    refine List.drop_left' ?_
    rw [List.length_reverse, String.length_toList]
  simp only [withExtension, fileName?_of_name h hText hBefore, hReversed, trimReversed_name h,
    hDropped, List.reverse_reverse]
  simp

theorem splitExtension_append {stem : String} (h : stem ≠ "") {extension : String}
    (hDot : '.' ∉ extension.toList) :
    splitExtension (stem ++ "." ++ extension) = (stem, some extension) := by
  have hReversed : (stem ++ "." ++ extension).toList.reverse =
      extension.toList.reverse ++ '.' :: stem.toList.reverse := by
    simp
  have hTaken : (extension.toList.reverse ++ '.' :: stem.toList.reverse).takeWhile (· != '.') =
      extension.toList.reverse := by
    rw [List.takeWhile_append_of_pos]
    · simp
    · intro c hc
      rw [bne_iff_ne]
      rintro rfl
      exact hDot (List.mem_reverse.mp hc)
  have hDropped : (extension.toList.reverse ++ '.' :: stem.toList.reverse).drop
      extension.toList.reverse.length = '.' :: stem.toList.reverse := List.drop_left' rfl
  have hStem : stem.toList.reverse.isEmpty = false := by
    simpa using h
  simp only [splitExtension, hReversed, hTaken, hDropped, hStem]
  simp

/-- A name has an extension if it has a dot that is not its first character, and then the last one
of them counts. -/
theorem splitExtension_cases (name : String) :
    splitExtension name = (name, none) ∨
      ∃ stem extension, stem ≠ "" ∧ '.' ∉ extension.toList ∧
        name = stem ++ "." ++ extension ∧ splitExtension name = (stem, some extension) := by
  have hReversed : name.toList.reverse = name.toList.reverse.takeWhile (· != '.') ++
      name.toList.reverse.drop (name.toList.reverse.takeWhile (· != '.')).length :=
    (List.prefix_iff_eq_append.mp (List.takeWhile_prefix _)).symm
  have hBehind : '.' ∉ name.toList.reverse.takeWhile (· != '.') := by
    intro hDot
    simpa using List.mem_takeWhile_imp hDot
  unfold splitExtension
  dsimp only
  generalize name.toList.reverse.takeWhile (· != '.') = behind at hReversed hBehind ⊢
  split
  · rename_i front hFront
    split
    · exact .inl rfl
    · rename_i hSome
      refine .inr ⟨_, _, ?_, ?_, ?_, rfl⟩
      · simpa [← String.toList_inj] using hSome
      · simpa using hBehind
      · have hName : name.toList = (behind ++ '.' :: front).reverse := by
          rw [← hFront, ← hReversed, List.reverse_reverse]
        rw [← String.toList_inj, hName]
        simp
  · exact .inl rfl

/-! ## Components -/

/-- What a path begins with that is no name. -/
def leading (s : List Char) : List PathComponent :=
  match s with
  | '/' :: _ => [.root]
  | _ => if (splitSlashes s).head? = some ['.'] then [.current] else []

theorem components_eq (path : String) : components path =
    leading path.toList ++ (splitSlashes path.toList).filterMap component? := rfl

theorem leading_append {s : List Char} (h : s ≠ []) (t : List Char) :
    leading (s ++ '/' :: t) = leading s := by
  obtain ⟨c, cs, rfl⟩ := List.exists_cons_of_ne_nil h
  by_cases hSlash : c = '/'
  · subst hSlash
    rfl
  · have hHead : (splitSlashes (c :: cs ++ '/' :: t)).head? = (splitSlashes (c :: cs)).head? := by
      rw [splitSlashes_append_slash, List.head?_append_of_ne_nil _ (splitSlashes_ne_nil _)]
    rw [List.cons_append] at hHead ⊢
    simp [leading, hSlash, hHead]

theorem filterMap_component? {names : List String} (h : ∀ n ∈ names, IsPlain n) :
    (names.map String.toList).filterMap component? = names.map .normal := by
  rw [List.filterMap_map, ← List.filterMap_eq_map]
  exact List.filterMap_congr fun n hn => component?_of_plain (h n hn)

theorem components_below {base : String} {names : List String} (hBase : base ≠ "")
    (hNonempty : names ≠ []) (h : ∀ n ∈ names, IsPlain n) :
    components (below base names) = components base ++ names.map .normal := by
  obtain ⟨s, hOpened, hText⟩ := exists_opened_eq hBase
  have hWhole : (below base names).toList = s ++ '/' :: slashed names := by
    rw [toList_below h, hOpened, List.append_assoc]
    rfl
  have hPieces : (splitSlashes base.toList).filterMap component? =
      (splitSlashes s).filterMap component? := by
    rcases hText with hText | hText
    · rw [hText]
    · rw [hText, splitSlashes_append_slash, List.filterMap_append]
      exact List.append_nil _
  have hLeading : leading (s ++ '/' :: slashed names) = leading base.toList := by
    by_cases hEmpty : s = []
    · subst hEmpty
      have hRoot : base.toList = ['/'] := hText.resolve_left (by simpa using hBase)
      rw [hRoot]
      rfl
    · rw [leading_append hEmpty]
      rcases hText with hText | hText
      · rw [hText]
      · rw [hText, leading_append hEmpty]
  rw [components_eq, components_eq, hWhole, hLeading, splitSlashes_append_slash,
    splitSlashes_slashed hNonempty h, List.filterMap_append, filterMap_component? h, hPieces,
    List.append_assoc]

theorem exists_name_of_extension? {path extension : String} (h : extension? path = some extension) :
    ∃ stem, stem ≠ "" ∧
      (components path).getLast? = some (.normal (stem ++ "." ++ extension)) := by
  obtain ⟨name, hName, hExtension⟩ := Option.bind_eq_some_iff.mp h
  have hLast : (components path).getLast? = some (.normal name) := by
    unfold fileName? at hName
    split at hName
    · cases hName
      assumption
    · cases hName
  rcases splitExtension_cases name with hNone | ⟨stem, found, hStem, -, rfl, hFound⟩
  · rw [hNone] at hExtension
    cases hExtension
  · rw [hFound] at hExtension
    cases hExtension
    exact ⟨stem, hStem, hLast⟩

/-! ## The directory itself -/

theorem named_append_slash (s t : List Char) :
    named (String.ofList (s ++ '/' :: t)) = named (String.ofList s) ++ named (String.ofList t) := by
  simp [named, splitSlashes_append_slash]

theorem isPrefixOf_append {s t : List Char} (h : s ≠ []) :
    "/".toList.isPrefixOf (s ++ t) = "/".toList.isPrefixOf s := by
  obtain ⟨c, cs, rfl⟩ := List.exists_cons_of_ne_nil h
  simp [List.isPrefixOf]

theorem exists_named_trimReversed {reversed : List Char} (h : reversed ≠ []) :
    trimReversed reversed ≠ [] ∧
      ("/".toList.isPrefixOf (trimReversed reversed).reverse =
        "/".toList.isPrefixOf reversed.reverse) ∧
      ∃ n, named (String.ofList reversed.reverse) =
        named (String.ofList (trimReversed reversed).reverse) ++ List.replicate n "." := by
  fun_induction trimReversed reversed with
  | case1 => exact ⟨h, rfl, 0, by simp⟩
  | case2 rest hRest ih =>
    have hNonempty : rest ≠ [] := by
      rintro rfl
      exact hRest rfl
    obtain ⟨hTrimmed, hStart, n, hNamed⟩ := ih hNonempty
    refine ⟨hTrimmed, ?_, n, ?_⟩
    · rw [hStart, List.reverse_cons, isPrefixOf_append (List.reverse_ne_nil_iff.mpr hNonempty)]
    · rw [List.reverse_cons, named_append_slash, hNamed]
      simp [named, splitSlashes]
  | case3 => exact ⟨by simp, rfl, 1, by decide⟩
  | case4 rest hRest ih =>
    have hNonempty : rest ≠ [] := by
      rintro rfl
      exact hRest rfl
    obtain ⟨hTrimmed, hStart, n, hNamed⟩ := ih hNonempty
    have hReversed : ('.' :: '/' :: rest).reverse = rest.reverse ++ '/' :: ['.'] := by simp
    refine ⟨hTrimmed, ?_, n + 1, ?_⟩
    · rw [hStart, hReversed, isPrefixOf_append (List.reverse_ne_nil_iff.mpr hNonempty)]
    · rw [hReversed, named_append_slash, hNamed, List.append_assoc, List.replicate_succ']
      rfl
  | case5 s => exact ⟨h, rfl, 0, by simp⟩

theorem exists_parent?_below {base name : String} (hBase : base ≠ "") (h : IsPlain name) :
    ∃ parent, parent? (below base [name]) = some parent ∧ parent ≠ "" ∧
      ("/".toList.isPrefixOf parent.toList = "/".toList.isPrefixOf base.toList) ∧
      ∃ n, named base = named parent ++ List.replicate n "." := by
  have hNonempty : base.toList ≠ [] := by simpa using hBase
  obtain ⟨s, hOpened, hText⟩ := exists_opened_eq hBase
  have hSame : named (String.ofList (s ++ ['/'])) = named base ∧
      "/".toList.isPrefixOf (s ++ ['/']) = "/".toList.isPrefixOf base.toList := by
    rcases hText with hText | hText
    · rw [← hText, named_append_slash, String.ofList_toList, isPrefixOf_append hNonempty]
      exact ⟨by simp [named, splitSlashes], rfl⟩
    · rw [← hText, String.ofList_toList]
      exact ⟨rfl, rfl⟩
  have hBelow : (below base [name]).toList = s ++ '/' :: name.toList := by
    rw [toList_below (by simpa using h), hOpened, slashed_singleton, List.append_assoc]
    rfl
  obtain ⟨hTrimmed, hStart, n, hNamed⟩ :=
    exists_named_trimReversed (List.cons_ne_nil '/' s.reverse)
  have hReversed : ('/' :: s.reverse).reverse = s ++ ['/'] := by simp
  rw [hReversed] at hStart hNamed
  refine ⟨_, parent?_of_name h hBelow, ?_, ?_, n, hSame.1.symm.trans hNamed⟩
  · intro hEmpty
    rw [← String.ofList_nil, String.ofList_inj, List.reverse_eq_nil_iff] at hEmpty
    exact hTrimmed hEmpty
  · exact (congrArg _ String.toList_ofList).trans (hStart.trans hSame.2)

/-! ## The last name -/

theorem exists_behind_slash (s : List Char) :
    ∃ before last, s = before ++ last ∧ '/' ∉ last ∧ (before = [] ∨ ∃ b, before = b ++ ['/']) := by
  induction s with
  | nil => exact ⟨[], [], rfl, List.not_mem_nil, .inl rfl⟩
  | cons c rest ih =>
    obtain ⟨before, last, rfl, hLast, rfl | ⟨b, rfl⟩⟩ := ih
    · by_cases hSlash : c = '/'
      · subst hSlash
        exact ⟨['/'], last, rfl, hLast, .inr ⟨[], rfl⟩⟩
      · refine ⟨[], c :: last, rfl, ?_, .inl rfl⟩
        rw [List.mem_cons, not_or]
        exact ⟨Ne.symm hSlash, hLast⟩
    · exact ⟨c :: (b ++ ['/']), last, rfl, hLast, .inr ⟨c :: b, rfl⟩⟩

theorem exists_pieces {before last : List Char} (hLast : '/' ∉ last)
    (hBefore : before = [] ∨ ∃ b, before = b ++ ['/']) :
    ∃ pieces, splitSlashes (before ++ last) = pieces ++ [last] := by
  rcases hBefore with rfl | ⟨b, rfl⟩
  · exact ⟨[], splitSlashes_of_not_mem hLast⟩
  · refine ⟨splitSlashes b, ?_⟩
    rw [List.append_assoc, List.singleton_append, splitSlashes_append_slash,
      splitSlashes_of_not_mem hLast]

theorem exists_steps_of_name {path name : String} (h : IsPlain name) {before : List Char}
    (hText : path.toList = before ++ name.toList)
    (hBefore : before = [] ∨ ∃ b, before = b ++ ['/']) :
    ∃ front, FileTree.steps path = front ++ [name] := by
  obtain ⟨inner, c, hName, hc⟩ := h.exists_last
  obtain ⟨pieces, hPieces⟩ := exists_pieces h.unbroken hBefore
  have hLast : path.toList = (before ++ inner) ++ [c] := by
    rw [hText, hName, List.append_assoc]
  have hSteps : FileTree.steps path = named path := steps_of_last hLast hc
  have hNonempty : name.isEmpty = false := by
    have hSome := h.nonempty
    simpa [Bool.eq_false_iff, String.isEmpty_iff] using hSome
  refine ⟨(pieces.map String.ofList).filter (!·.isEmpty), ?_⟩
  rw [hSteps, named, hText, hPieces, List.map_append, List.filter_append]
  simp [hNonempty]

theorem exists_name_of_steps {path name : String} {front : List String}
    (h : FileTree.steps path = front ++ [name]) (hCurrent : name ≠ ".") (hParent : name ≠ "..") :
    IsPlain name ∧ ∃ before, path.toList = before ++ name.toList ∧
      (before = [] ∨ ∃ b, before = b ++ ['/']) := by
  obtain ⟨before, last, hText, hLast, hBefore⟩ := exists_behind_slash path.toList
  obtain ⟨pieces, hPieces⟩ := exists_pieces hLast hBefore
  have hNamed : FileTree.steps path = named path := (steps_eq path).resolve_right fun hStays =>
    hCurrent (List.singleton_inj.mp (List.append_inj' (h.symm.trans hStays) rfl).2)
  rw [hNamed, named, hText, hPieces, List.map_append, List.filter_append, List.map_singleton] at h
  by_cases hEmpty : last = []
  · -- then the path ends in a slash, behind which there is a step that stays
    rcases hBefore with rfl | ⟨b, rfl⟩
    · have hNone : pieces = [] := by
        rw [hEmpty] at hPieces
        exact (List.append_inj' hPieces.symm (by rfl)).1
      rw [hNone, hEmpty] at h
      simp at h
    · have hSlash : "/".toList.isSuffixOf path.toList = true := by
        rw [List.isSuffixOf_iff_suffix, hText, hEmpty, List.append_nil]
        exact List.suffix_append b ['/']
      have hStays : FileTree.steps path = named path ++ ["."] := by
        rw [FileTree.steps, if_pos hSlash]
        rfl
      rw [hNamed] at hStays
      simp at hStays
  · have hKept : (String.ofList last).isEmpty = false := by
      simpa [Bool.eq_false_iff, String.isEmpty_iff, ← String.toList_inj] using hEmpty
    rw [List.filter_singleton, hKept] at h
    obtain rfl : String.ofList last = name := List.singleton_inj.mp (List.append_inj' h rfl).2
    refine ⟨⟨?_, ?_, hCurrent, hParent⟩, before, ?_, hBefore⟩
    · simpa using hEmpty
    · simpa using hLast
    · rw [hText, String.toList_ofList]

/-- Another extension with a dot in it makes the last step of a path another name. -/
theorem exists_steps_withExtension {path name : String} {front : List String} {extension : String}
    (h : FileTree.steps path = front ++ [name]) (hCurrent : name ≠ ".") (hParent : name ≠ "..")
    (hSlash : '/' ∉ extension.toList) (hDot : '.' ∈ extension.toList)
    (hLength : 1 < extension.length) :
    ∃ front' name', FileTree.steps (withExtension path extension) = front' ++ [name'] ∧
      name' ≠ name := by
  obtain ⟨hPlain, before, hText, hBefore⟩ := exists_name_of_steps h hCurrent hParent
  have hChanged := withExtension_of_name hPlain hText hBefore extension
  have hStem : '/' ∉ (splitExtension name).1.toList ∧
      (splitExtension name).1 ++ "." ++ extension ≠ name := by
    -- Without an extension the name grows; with one, the new name has a dot where it had none.
    rcases splitExtension_cases name with hNone | ⟨stem, found, -, hNoDot, hName, hFound⟩
    · rw [hNone]
      refine ⟨hPlain.unbroken, fun hSame => ?_⟩
      have hLonger : (name ++ "." ++ extension).length = name.length + 1 + extension.length := by
        rw [String.length_append, String.length_append]
        rfl
      have hSame : (name ++ "." ++ extension).length = name.length := congrArg String.length hSame
      omega
    · rw [hFound]
      refine ⟨fun hMem => hPlain.unbroken ?_, fun hSame => hNoDot ?_⟩
      · rw [hName, String.toList_append, String.toList_append, List.append_assoc]
        exact List.mem_append_left _ hMem
      · have hChars := congrArg String.toList (hSame.trans hName)
        rw [String.toList_append, String.toList_append (t := found)] at hChars
        rwa [← List.append_cancel_left hChars]
  have hPlain' : IsPlain ((splitExtension name).1 ++ ("." ++ extension)) := by
    refine isPlain_append hStem.1 (by simpa using hSlash) ?_
    rw [String.length_append]
    exact Nat.add_lt_add_left hLength 1
  rw [← String.append_assoc] at hPlain'
  obtain ⟨front', hSteps⟩ := exists_steps_of_name hPlain' hChanged hBefore
  exact ⟨front', _, hSteps, hStem.2⟩

end FilePath
end TraitClient
