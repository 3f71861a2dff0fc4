import Mathlib.Data.List.TakeWhile
import TraitClient.Code.Words
import TraitClient.Proofs.LocalNames

/-!
# Names that stay identifiers

The generated names are made from names of the source.  Appending to an identifier keeps it one, raw
or not, and so does its snake case unless it is raw: the mark of a raw name ends up behind a prefix,
where it is no part of an identifier.
-/
namespace TraitClient

/-! ## The tables -/

namespace Text

/-- The ranges that are left when each of some others has taken the ranges within it off the
front.  With both in order one pass over each list finds whether all are covered. -/
def uncovered (ranges covers : List (Nat × Nat)) : List (Nat × Nat) :=
  covers.foldl (fun rest r => rest.dropWhile fun a => Nat.ble r.1 a.1 && Nat.ble a.2 r.2) ranges

theorem exists_cover {covers ranges : List (Nat × Nat)} (h : uncovered ranges covers = [])
    {a : Nat × Nat} (ha : a ∈ ranges) : ∃ r ∈ covers, r.1 ≤ a.1 ∧ a.2 ≤ r.2 := by
  induction covers generalizing ranges with
  | nil =>
    subst h
    exact absurd ha List.not_mem_nil
  | cons r covers ih =>
    rw [← List.takeWhile_append_dropWhile (l := ranges)
      (p := fun a => Nat.ble r.1 a.1 && Nat.ble a.2 r.2)] at ha
    rcases List.mem_append.mp ha with hTaken | hLeft
    · have hWithin := List.mem_takeWhile_imp hTaken
      simp only [Bool.and_eq_true, Nat.ble_eq] at hWithin
      exact ⟨r, List.mem_cons_self, hWithin⟩
    · obtain ⟨r', hr', hWithin⟩ := ih h hLeft
      exact ⟨r', List.mem_cons_of_mem _ hr', hWithin⟩

theorem uncovered_identStart :
    uncovered identStartRanges.ranges identContinueRanges.ranges = [] := by decide +kernel

theorem isIdentContinue_of_isIdentStart {c : Char} (h : isIdentStart c = true) :
    isIdentContinue c = true := by
  unfold isIdentStart at h
  unfold isIdentContinue
  split at h
  · rename_i hAscii
    rw [if_pos hAscii]
    rcases Bool.or_eq_true_iff.mp h with hAlpha | hUnderscore
    · simp [Char.isAlphanum, hAlpha]
    · simp [hUnderscore]
  · rename_i hAscii
    rw [if_neg hAscii]
    obtain ⟨a, ha, hIn⟩ := List.any_eq_true.mp h
    simp only [Bool.and_eq_true, decide_eq_true_eq] at hIn
    obtain ⟨r, hr, hLow, hHigh⟩ := exists_cover uncovered_identStart ha
    refine List.any_eq_true.mpr ⟨r, hr, ?_⟩
    simp only [Bool.and_eq_true, decide_eq_true_eq]
    omega

/-- Whether the code points between two bounds are characters beyond ASCII that go on an
identifier. -/
def goOnIdentifiers (first last : Nat) : Bool :=
  Nat.ble 128 first && (Nat.blt last 0xD800 || (Nat.ble 0xE000 first && Nat.blt last 0x110000)) &&
    identContinueRanges.ranges.any fun q => Nat.ble q.1 first && Nat.ble last q.2

theorem isIdentContinue_of_goOnIdentifiers {first last n : Nat}
    (h : goOnIdentifiers first last = true) (hFirst : first ≤ n) (hLast : n ≤ last) :
    isIdentContinue (Char.ofNat n) = true := by
  simp only [goOnIdentifiers, Bool.and_eq_true, Bool.or_eq_true, Nat.ble_eq, Nat.blt_eq] at h
  obtain ⟨⟨hBeyond, hChar⟩, hTable⟩ := h
  have hValid : n.isValidChar := by
    unfold Nat.isValidChar
    omega
  have hCode : (Char.ofNat n).toNat = n := by
    rw [Char.ofNat, dif_pos hValid]
    rfl
  obtain ⟨q, hq, hWithin⟩ := List.any_eq_true.mp hTable
  simp only [Bool.and_eq_true, Nat.ble_eq] at hWithin
  rw [isIdentContinue, hCode, if_neg (by omega)]
  refine List.any_eq_true.mpr ⟨q, hq, ?_⟩
  simp only [hCode, Bool.and_eq_true, decide_eq_true_eq]
  omega

theorem isIdentContinue_ascii_toLower : ∀ n < 128, isIdentContinue (Char.ofNat n) = true →
    isIdentContinue (Char.ofNat n).toLower = true := by decide

theorem isIdentContinue_ascii_small : ∀ n < 128, 0x61 ≤ n → n ≤ 0x7A →
    isIdentContinue (Char.ofNat n) = true := by decide

/-- Whether the lower cases of a run go on an identifier, or no character of the run does. -/
def CaseRun.keepsIdentifiers (r : CaseRun) : Bool :=
  (Nat.ble 0x61 r.target && Nat.ble (r.target + (r.last - r.first)) 0x7A) ||
    goOnIdentifiers r.target (r.target + (r.last - r.first)) ||
    identContinueRanges.ranges.all fun q => Nat.blt q.2 r.first || Nat.blt r.last q.1

theorem caseRuns_keepIdentifiers : caseRuns.all CaseRun.keepsIdentifiers = true := by
  decide +kernel

theorem CaseRun.isIdentContinue_lower {r : CaseRun} (hr : r ∈ caseRuns) {c : Char}
    (hc : identContinueRanges.contains c = true) {n : Nat} (h : r.lower? c.toNat = some n) :
    isIdentContinue (Char.ofNat n) = true := by
  unfold CaseRun.lower? at h
  split at h
  · rename_i hIn
    obtain rfl := Option.some.inj h
    simp only [Bool.and_eq_true, decide_eq_true_eq] at hIn
    obtain ⟨⟨hFirst, hLast⟩, _⟩ := hIn
    have hKeeps := List.all_eq_true.mp caseRuns_keepIdentifiers r hr
    rcases Bool.or_eq_true_iff.mp hKeeps with hImage | hDisjoint
    · rcases Bool.or_eq_true_iff.mp hImage with hSmall | hBeyond
      · simp only [Bool.and_eq_true, Nat.ble_eq] at hSmall
        exact isIdentContinue_ascii_small _ (by omega) (by omega) (by omega)
      · exact isIdentContinue_of_goOnIdentifiers hBeyond (by omega) (by omega)
    · obtain ⟨q, hq, hWithin⟩ := List.any_eq_true.mp hc
      have hApart := List.all_eq_true.mp hDisjoint q hq
      simp only [Bool.and_eq_true, decide_eq_true_eq] at hWithin
      simp only [Bool.or_eq_true, Nat.blt_eq] at hApart
      omega
  · cases h

theorem lowercase_isIdentContinue {c : Char} (h : isIdentContinue c = true) :
    ∀ d ∈ lowercase c, isIdentContinue d = true := by
  intro d hd
  unfold lowercase at hd
  split at hd
  · rename_i hAscii
    obtain rfl := List.mem_singleton.mp hd
    rw [← Char.ofNat_toNat c] at h ⊢
    exact isIdentContinue_ascii_toLower _ hAscii h
  · rename_i hAscii
    split at hd
    · -- The dotted capital I becomes a small one with the dot as a mark of its own.
      rcases List.mem_cons.mp hd with rfl | hd
      · rfl
      · obtain rfl := List.mem_singleton.mp hd
        have hDot : goOnIdentifiers 0x307 0x307 = true := by decide +kernel
        exact isIdentContinue_of_goOnIdentifiers hDot le_rfl le_rfl
    · obtain rfl := List.mem_singleton.mp hd
      cases hRun : caseRuns.findSome? fun r => r.lower? c.toNat with
      | none => exact h
      | some n =>
        obtain ⟨r, hr, hLower⟩ := List.exists_of_findSome?_eq_some hRun
        rw [isIdentContinue, if_neg hAscii] at h
        exact r.isIdentContinue_lower hr h hLower

end Text

/-! ## Snake case -/

namespace Naming

open Text

theorem snakeFrom_isIdentContinue {s : List Char} (h : ∀ c ∈ s, isIdentContinue c = true)
    (previous : Option Char) : ∀ d ∈ snakeFrom previous s, isIdentContinue d = true := by
  induction s generalizing previous with
  | nil => exact fun d hd => absurd hd List.not_mem_nil
  | cons c s ih =>
    obtain ⟨hHead, hRest⟩ := List.forall_mem_cons.mp h
    intro d hd
    rw [snakeFrom] at hd
    rcases List.mem_append.mp hd with hWritten | hBelow
    · split at hWritten
      · rcases List.mem_append.mp hWritten with hMark | hLower
        · split at hMark
          · obtain rfl := List.mem_singleton.mp hMark
            rfl
          · exact absurd hMark List.not_mem_nil
        · exact lowercase_isIdentContinue hHead d hLower
      · obtain rfl := List.mem_singleton.mp hWritten
        exact hHead
    · exact ih hRest _ d hBelow

def isRaw (name : String) : Bool := "r#".toList.isPrefixOf name.toList

end Naming

/-! ## Tokens -/

namespace Code

open Text Naming

theorem isIdentText_append {a b : List Char} (ha : isIdentText a = true)
    (hb : ∀ c ∈ b, isIdentContinue c = true) : isIdentText (a ++ b) = true := by
  cases a with
  | nil => cases ha
  | cons c cs =>
    obtain ⟨hStart, hGoOn⟩ := Bool.and_eq_true_iff.mp ha
    refine Bool.and_eq_true_iff.mpr ⟨hStart, List.all_eq_true.mpr fun d hd => ?_⟩
    rcases List.mem_append.mp hd with hd | hd
    · exact List.all_eq_true.mp hGoOn d hd
    · exact hb d hd

theorem forall_isIdentContinue {s : List Char} (h : isIdentText s = true) :
    ∀ c ∈ s, isIdentContinue c = true := by
  cases s with
  | nil => cases h
  | cons c cs =>
    obtain ⟨hStart, hGoOn⟩ := Bool.and_eq_true_iff.mp h
    exact List.forall_mem_cons.mpr
      ⟨isIdentContinue_of_isIdentStart hStart, List.all_eq_true.mp hGoOn⟩

theorem isRaw_eq_true_iff {name : String} :
    isRaw name = true ↔ ∃ raw, name.toList = 'r' :: '#' :: raw := by
  rw [isRaw, List.isPrefixOf_iff_prefix]
  constructor
  · rintro ⟨raw, hRaw⟩
    exact ⟨raw, hRaw.symm⟩
  · rintro ⟨raw, hRaw⟩
    exact ⟨raw, hRaw.symm⟩

theorem isToken_of_raw {name : String} {raw : List Char} (h : name.toList = 'r' :: '#' :: raw) :
    (Word.ident name).isToken = (isIdentText raw && !unrawable.contains (String.ofList raw)) := by
  simp only [Word.isToken, h]

theorem isToken_of_not_raw {name : String} (h : isRaw name = false) :
    (Word.ident name).isToken = isIdentText name.toList := by
  simp only [Word.isToken]
  split
  · rename_i raw hRaw
    rw [isRaw_eq_true_iff.mpr ⟨raw, hRaw⟩] at h
    cases h
  · rfl

theorem isRaw_of_isIdentText {name : String} (h : isIdentText name.toList = true) :
    isRaw name = false := by
  refine Bool.eq_false_iff.mpr fun hRaw => ?_
  obtain ⟨raw, hRaw⟩ := isRaw_eq_true_iff.mp hRaw
  have hMark := forall_isIdentContinue h '#' (by simp [hRaw])
  exact absurd hMark (by decide)

theorem isToken_of_isIdentText {name : String} (h : isIdentText name.toList = true) :
    (Word.ident name).isToken = true :=
  (isToken_of_not_raw (isRaw_of_isIdentText h)).trans h

theorem toList_ne_nil_of_isToken {name : String} (h : (Word.ident name).isToken = true) :
    name.toList ≠ [] := by
  intro hNil
  rw [Word.isToken, hNil] at h
  cases h

theorem not_mem_of_isToken {name : String} {c : Char} (h : (Word.ident name).isToken = true)
    (hc : isIdentContinue c = false) (hMark : c ≠ '#') : c ∉ name.toList := by
  have hText : ∀ {s : List Char}, isIdentText s = true → c ∉ s := by
    intro s hs hMem
    rw [forall_isIdentContinue hs c hMem] at hc
    cases hc
  cases hRaw : isRaw name with
  | false =>
    rw [isToken_of_not_raw hRaw] at h
    exact hText h
  | true =>
    obtain ⟨raw, hRaw⟩ := isRaw_eq_true_iff.mp hRaw
    rw [isToken_of_raw hRaw] at h
    have hStart : isIdentContinue 'r' = true := by decide
    rw [hRaw, List.mem_cons, List.mem_cons, not_or, not_or]
    refine ⟨?_, hMark, hText (Bool.and_eq_true_iff.mp h).1⟩
    rintro rfl
    rw [hStart] at hc
    cases hc

theorem isToken_append {name suffix : String} (h : (Word.ident name).isToken = true)
    (hSuffix : ∀ c ∈ suffix.toList, isIdentContinue c = true)
    (hRawable : ∀ word ∈ unrawable, ¬suffix.toList <:+ word.toList) :
    (Word.ident (name ++ suffix)).isToken = true := by
  cases hRaw : isRaw name with
  | false =>
    rw [isToken_of_not_raw hRaw] at h
    refine isToken_of_isIdentText ?_
    rw [String.toList_append]
    exact isIdentText_append h hSuffix
  | true =>
    obtain ⟨raw, hRaw⟩ := isRaw_eq_true_iff.mp hRaw
    rw [isToken_of_raw hRaw] at h
    have hAppended : (name ++ suffix).toList = 'r' :: '#' :: (raw ++ suffix.toList) := by
      rw [String.toList_append, hRaw]
      rfl
    rw [isToken_of_raw hAppended]
    have hFree : String.ofList (raw ++ suffix.toList) ∉ unrawable := fun hMem =>
      hRawable _ hMem ⟨raw, String.toList_ofList.symm⟩
    rw [isIdentText_append (Bool.and_eq_true_iff.mp h).1 hSuffix, Bool.true_and]
    simpa using hFree

end Code

namespace Interface

open Code Text Naming

variable {i : Interface}

theorem implName_isToken (h : (Word.ident i.name).isToken = true) :
    (Word.ident i.implName).isToken = true :=
  isToken_append h (List.all_eq_true.mp (by decide)) (by decide)

/-- The mark of a raw trait name ends up inside the name of its factory. -/
theorem factoryName_isToken_iff (h : (Word.ident i.name).isToken = true) :
    (Word.ident i.factoryName).isToken = true ↔ isRaw i.name = false := by
  have hText : i.factoryName.toList = "create_".toList ++ snakeFrom none i.name.toList := by
    rw [factoryName, snakeCase, String.toList_append]
    exact congrArg _ String.toList_ofList
  constructor
  · intro hToken
    by_contra hRaw
    obtain ⟨raw, hRaw⟩ := isRaw_eq_true_iff.mp (Bool.not_eq_false _ ▸ hRaw)
    have hPrefixed : isRaw i.factoryName = false := by
      rw [isRaw, hText]
      rfl
    rw [isToken_of_not_raw hPrefixed, hText, hRaw] at hToken
    have hMark := forall_isIdentContinue hToken '#' (by simp [snakeFrom, isUppercase])
    exact absurd hMark (by decide)
  · intro hPlain
    rw [isToken_of_not_raw hPlain] at h
    refine isToken_of_isIdentText ?_
    rw [hText]
    exact isIdentText_append (by decide)
      (snakeFrom_isIdentContinue (forall_isIdentContinue h) none)

end Interface

namespace LocalNames

open Code

theorem length_of_unrawable : ∀ word ∈ unrawable,
    word.toList.getLast? = some '_' → word.toList.length = 1 := by
  decide

theorem underscored_isToken {base : String} (h : (Word.ident base).isToken = true) (count : Nat) :
    (Word.ident (underscored base count)).isToken = true := by
  have hSuffix : ∀ c ∈ List.replicate count '_', Text.isIdentContinue c = true := by
    intro c hc
    rw [List.eq_of_mem_replicate hc]
    rfl
  have hChars := toList_underscored base count
  cases hRaw : Naming.isRaw base with
  | false =>
    rw [isToken_of_not_raw hRaw] at h
    refine isToken_of_isIdentText ?_
    rw [hChars]
    exact isIdentText_append h hSuffix
  | true =>
    obtain ⟨raw, hRaw⟩ := isRaw_eq_true_iff.mp hRaw
    cases count with
    | zero =>
      rw [underscored_zero]
      exact h
    | succ count =>
      rw [isToken_of_raw hRaw] at h
      have hText := (Bool.and_eq_true_iff.mp h).1
      rw [hRaw, List.cons_append, List.cons_append] at hChars
      rw [isToken_of_raw hChars, isIdentText_append hText hSuffix, Bool.true_and]
      -- None of the words that have no raw form ends in an underscore, but the underscore itself.
      have hFree : String.ofList (raw ++ List.replicate (count + 1) '_') ∉ unrawable := by
        intro hMem
        have hLength := length_of_unrawable _ hMem (by simp [List.getLast?_replicate])
        have hNonempty : raw ≠ [] := fun hNil => by simp [hNil, Text.isIdentText] at hText
        have hPositive := List.length_pos_of_ne_nil hNonempty
        rw [String.toList_ofList, List.length_append, List.length_replicate] at hLength
        omega
      simpa using hFree

end LocalNames

namespace Locals

open Code

theorem isToken_of_mem_names {m : Method} {name : String} (hName : name ∈ (ofMethod m).names) :
    (Word.ident name).isToken = true := by
  rw [names_ofMethod] at hName
  obtain ⟨base, hBase, count, rfl⟩ := LocalNames.freshAll_underscored hName
  have hBases : ∀ base ∈ bases, (Word.ident base).isToken = true := by decide
  exact LocalNames.underscored_isToken (hBases base hBase) count

end Locals
end TraitClient
