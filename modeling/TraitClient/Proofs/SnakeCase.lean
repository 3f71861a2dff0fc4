import Mathlib.Data.List.Basic
import TraitClient.Naming

/-!
# Snake case of ASCII names

Every character is written in lowercase, after an underscore where a word starts.  Such a mark
stands between two letters, or between a digit and a letter, so that it is never the first character
and never beside another underscore.  Marks and letter case are all that a name loses or gains, and
a second pass finds nothing to do.
-/
namespace TraitClient.Naming

open Text

def IsAscii (s : String) : Prop := ∀ c ∈ s.toList, c.toNat < 128

/-- At the place is an uppercase letter that follows a lowercase letter or a digit, or that follows
an uppercase letter and precedes a lowercase one. -/
def StartsWordAt (s : List Char) : Nat → Prop
  | 0 => False
  | i + 1 => s[i + 1]?.any (·.isUpper) ∧ (s[i]?.any (fun c => c.isLower || c.isDigit) ∨
      s[i]?.any (·.isUpper) ∧ s[i + 2]?.any (·.isLower))

instance (s : List Char) : DecidablePred (StartsWordAt s)
  | 0 => inferInstanceAs (Decidable False)
  | _ + 1 => inferInstanceAs (Decidable (_ ∧ _))

def writtenAt (s : List Char) (i : Nat) (c : Char) : List Char :=
  if StartsWordAt s i then ['_', c.toLower] else [c.toLower]

variable {c : Char} {s rest : List Char} {previous next : Option Char}

/-! ## One character -/

theorem isUppercase_ascii (h : c.toNat < 128) : isUppercase c = c.isUpper := if_pos h

theorem isLowercase_ascii (h : c.toNat < 128) : isLowercase c = c.isLower := if_pos h

theorem forall_ascii {p : Char → Prop} (hEach : ∀ n < 128, p (Char.ofNat n)) (h : c.toNat < 128) :
    p c :=
  Char.ofNat_toNat c ▸ hEach c.toNat h

theorem toNat_toLower_lt (h : c.toNat < 128) : c.toLower.toNat < 128 :=
  forall_ascii (p := fun c => c.toLower.toNat < 128) (by decide) h

theorem isUpper_toLower (h : c.toNat < 128) : c.toLower.isUpper = false :=
  forall_ascii (p := fun c => c.toLower.isUpper = false) (by decide) h

theorem toLower_eq_self (h : c.toNat < 128) : ¬c.isUpper = true → c.toLower = c :=
  forall_ascii (p := fun c => ¬c.isUpper = true → c.toLower = c) (by decide) h

theorem toLower_eq_underscore_iff (h : c.toNat < 128) : c.toLower = '_' ↔ c = '_' :=
  forall_ascii (p := fun c => c.toLower = '_' ↔ c = '_') (by decide) h

/-- What is written for an ASCII character, whatever surrounds it. -/
theorem snakeFrom_cons (h : c.toNat < 128) :
    snakeFrom previous (c :: rest) =
      (if c.isUpper ∧ startsWord previous rest.head? then ['_'] else []) ++
        c.toLower :: snakeFrom (some c) rest := by
  have hLower : lowercase c = [c.toLower] := if_pos h
  rw [snakeFrom, isUppercase_ascii h, hLower]
  by_cases hUpper : c.isUpper = true
  · simp [hUpper]
  · simp [hUpper, toLower_eq_self h hUpper]

theorem previous_ne_underscore (h : startsWord previous next = true) : previous ≠ some '_' := by
  rintro rfl
  cases next <;> simp [startsWord, isLowercase, isUppercase] at h

/-! ## Where marks are -/

theorem startsWordAt_append {front : List Char} (h : ∀ d ∈ front ++ c :: rest, d.toNat < 128) :
    StartsWordAt (front ++ c :: rest) front.length ↔
      c.isUpper = true ∧ startsWord front.getLast? rest.head? = true := by
  rcases List.eq_nil_or_concat' front with rfl | ⟨front, p, rfl⟩
  · simp [StartsWordAt, startsWord]
  · have hBefore : p.toNat < 128 := h p (by simp)
    have hNext : (rest.head?.map isLowercase).getD false = rest[0]?.any (·.isLower) := by
      cases rest with
      | nil => rfl
      | cons n rest => simp [isLowercase_ascii (h n (by simp))]
    have hPlaces : ∀ i, (front ++ [p] ++ c :: rest)[front.length + i]? = (p :: c :: rest)[i]? := by
      intro i
      rw [List.append_assoc, List.getElem?_append_right (Nat.le_add_right _ i),
        Nat.add_sub_cancel_left]
      rfl
    have hPrevious : (front ++ [p] ++ c :: rest)[front.length]? = some p := hPlaces 0
    rw [List.length_append, List.length_singleton, StartsWordAt, hPrevious, hPlaces 1, hPlaces 2]
    simp [startsWord, isLowercase_ascii hBefore, isUppercase_ascii hBefore, hNext]

theorem snakeFrom_eq_written (front : List Char) (h : ∀ d ∈ front ++ s, d.toNat < 128) :
    snakeFrom front.getLast? s =
      (s.zipIdx front.length).flatMap fun (c, i) => writtenAt (front ++ s) i c := by
  induction s generalizing front with
  | nil => rfl
  | cons c rest ih =>
    have hShift : front ++ c :: rest = (front ++ [c]) ++ rest := by simp
    have hRest := ih (front ++ [c]) (hShift ▸ h)
    rw [List.getLast?_concat, List.length_append, List.length_singleton, ← hShift] at hRest
    rw [snakeFrom_cons (h c (by simp)), List.zipIdx_cons, List.flatMap_cons, hRest]
    simp only [writtenAt, startsWordAt_append h]
    split <;> rfl

/-! ## What is written -/

theorem isUppercase_of_mem_snakeFrom (h : ∀ c ∈ s, c.toNat < 128) (previous : Option Char) :
    ∀ d ∈ snakeFrom previous s, isUppercase d = false := by
  induction s generalizing previous with
  | nil => exact fun d hd => absurd hd List.not_mem_nil
  | cons c rest ih =>
    obtain ⟨hHead, hRest⟩ := List.forall_mem_cons.mp h
    intro d hd
    rw [snakeFrom_cons hHead, List.mem_append, List.mem_cons] at hd
    rcases hd with hMark | rfl | hBelow
    · split at hMark
      · obtain rfl := List.mem_singleton.mp hMark
        rfl
      · exact absurd hMark List.not_mem_nil
    · rw [isUppercase_ascii (toNat_toLower_lt hHead), isUpper_toLower hHead]
    · exact ih hRest _ d hBelow

theorem filter_snakeFrom (h : ∀ c ∈ s, c.toNat < 128) :
    (snakeFrom previous s).filter (· ≠ '_') = (s.map Char.toLower).filter (· ≠ '_') := by
  induction s generalizing previous with
  | nil => rfl
  | cons c rest ih =>
    obtain ⟨hHead, hRest⟩ := List.forall_mem_cons.mp h
    have hMark : ∀ p : Prop, [Decidable p] →
        (if p then ['_'] else ([] : List Char)).filter (· ≠ '_') = [] := by
      intro p _
      split <;> rfl
    rw [snakeFrom_cons hHead, List.filter_append, hMark, List.nil_append, List.map_cons,
      List.filter_cons, List.filter_cons, ih hRest]

/-- An underscore in front was there before, or it is a mark behind something else. -/
theorem head?_snakeFrom (h : ∀ c ∈ s, c.toNat < 128)
    (hHead : (snakeFrom previous s).head? = some '_') :
    s.head? = some '_' ∨ ∃ next, startsWord previous next = true := by
  cases s with
  | nil => cases hHead
  | cons c rest =>
    rw [snakeFrom_cons (h c List.mem_cons_self)] at hHead
    split at hHead
    · rename_i hMark
      exact .inr ⟨rest.head?, hMark.2⟩
    · left
      have hLower : c.toLower = '_' := Option.some.inj hHead
      rw [(toLower_eq_underscore_iff (h c List.mem_cons_self)).mp hLower]
      rfl

theorem doubled_cons_iff : ['_', '_'] <:+: c :: s ↔
    (c = '_' ∧ s.head? = some '_') ∨ ['_', '_'] <:+: s := by
  rw [List.infix_cons_iff, List.cons_prefix_cons]
  cases s with
  | nil => simp
  | cons d s => simp [eq_comm (a := '_')]

/-- A mark has no underscore on either side. -/
theorem doubled_of_snakeFrom (h : ∀ c ∈ s, c.toNat < 128)
    (hDoubled : ['_', '_'] <:+: snakeFrom previous s) : ['_', '_'] <:+: s := by
  induction s generalizing previous with
  | nil => exact hDoubled
  | cons c rest ih =>
    obtain ⟨hFirst, hRest⟩ := List.forall_mem_cons.mp h
    have hLower : ['_', '_'] <:+: c.toLower :: snakeFrom (some c) rest →
        ['_', '_'] <:+: c :: rest := by
      intro hDoubled
      refine doubled_cons_iff.mpr ?_
      rcases doubled_cons_iff.mp hDoubled with ⟨hUnderscore, hNext⟩ | hBelow
      · obtain rfl := (toLower_eq_underscore_iff hFirst).mp hUnderscore
        rcases head?_snakeFrom hRest hNext with hHead | ⟨next, hMark⟩
        · exact .inl ⟨rfl, hHead⟩
        · exact absurd rfl (previous_ne_underscore hMark)
      · exact .inr (ih hRest hBelow)
    rw [snakeFrom_cons hFirst] at hDoubled
    split at hDoubled
    · rename_i hMark
      rcases doubled_cons_iff.mp hDoubled with ⟨-, hNext⟩ | hBelow
      · obtain rfl := (toLower_eq_underscore_iff hFirst).mp (Option.some.inj hNext)
        exact absurd hMark.1 (by decide)
      · exact hLower hBelow
    · exact hLower hDoubled

theorem snakeFrom_eq_self (h : ∀ c ∈ s, isUppercase c = false) : snakeFrom previous s = s := by
  induction s generalizing previous with
  | nil => rfl
  | cons c rest ih =>
    obtain ⟨hFirst, hRest⟩ := List.forall_mem_cons.mp h
    rw [snakeFrom, hFirst, ih hRest]
    rfl

/-! ## The snake case of a name -/

/-- The second name is the first one in lowercase, with an underscore where a word starts. -/
structure MarksWords (name snake : String) : Prop where
  noUppercase : ∀ c ∈ snake.toList, isUppercase c = false
  sameLetters : snake.toList.filter (· ≠ '_') = name.toLower.toList.filter (· ≠ '_')
  leading : snake.toList.head? = some '_' → name.toList.head? = some '_'
  doubled : ['_', '_'] <:+: snake.toList → ['_', '_'] <:+: name.toList
  marked : snake.toList = name.toList.zipIdx.flatMap fun (c, i) => writtenAt name.toList i c
  settled : snakeCase snake = snake

theorem snakeCase_marksWords (name : String) (h : IsAscii name) :
    MarksWords name (snakeCase name) := by
  have hChars : (snakeCase name).toList = snakeFrom none name.toList := String.toList_ofList
  have hLowercase := isUppercase_of_mem_snakeFrom h none
  refine ⟨hChars ▸ hLowercase, ?_, fun hLeading => ?_, fun hDoubled => ?_, ?_, ?_⟩
  · have hLower : name.toLower = name.map Char.toLower := rfl
    rw [hChars, filter_snakeFrom h, hLower, String.toList_map]
  · rw [hChars] at hLeading
    rcases head?_snakeFrom h hLeading with hHead | ⟨next, hMark⟩
    · exact hHead
    · cases hMark
  · exact doubled_of_snakeFrom h (hChars ▸ hDoubled)
  · rw [hChars]
    exact snakeFrom_eq_written [] h
  · rw [snakeCase, hChars, snakeFrom_eq_self hLowercase, snakeCase]

/-- Acronyms, digits and underscores next to each other. -/
theorem serverName_marksWords : IsAscii "_HTTP2__APIServerV3x" ∧
    MarksWords "_HTTP2__APIServerV3x" "_http2__api_server_v3x" := by
  have hAscii : IsAscii "_HTTP2__APIServerV3x" := by simp [IsAscii]
  have hSnake : snakeCase "_HTTP2__APIServerV3x" = "_http2__api_server_v3x" := by decide
  exact ⟨hAscii, hSnake ▸ snakeCase_marksWords "_HTTP2__APIServerV3x" hAscii⟩

end TraitClient.Naming
