import Mathlib.Data.List.Infix
import Mathlib.Data.List.TakeWhile
import Mathlib.Data.String.Basic
import TraitClient.Proofs.FirstOfEquals
import TraitClient.Template

/-!
# Placeholders of a template as pieces of its text

A word is a placeholder exactly if it stands in the template between braces.  No word has a brace in
it, so that placeholders never overlap and the scan from the left finds them all.  The text that is
cut out between two of them is the text that such a scan has passed.
-/
namespace TraitClient.Template

def bracedWord (word : List Char) : List Char := '\x7b' :: word ++ ['\x7d']

/-- A word that stands between braces somewhere in the text. -/
structure Holds (text word : List Char) : Prop where
  nonempty : word ≠ []
  isWord : ∀ c ∈ word, Text.isWord c = true
  braced : bracedWord word <:+: text

theorem isWord_openBrace : Text.isWord '\x7b' = false := by rfl

theorem isWord_closeBrace : Text.isWord '\x7d' = false := by rfl

theorem takeWhile_word {word : List Char} (hWord : ∀ c ∈ word, Text.isWord c = true)
    (after : List Char) : (word ++ '\x7d' :: after).takeWhile Text.isWord = word := by
  rw [List.takeWhile_append_of_pos hWord, List.takeWhile_cons, isWord_closeBrace]
  simp

theorem dropWhile_word {word : List Char} (hWord : ∀ c ∈ word, Text.isWord c = true)
    (after : List Char) :
    (word ++ '\x7d' :: after).dropWhile Text.isWord = '\x7d' :: after := by
  rw [List.dropWhile_append_of_pos hWord, List.dropWhile_cons, isWord_closeBrace]
  simp

theorem placeholderAt?_eq_some_iff {s word after : List Char} :
    placeholderAt? s = some (word, after) ↔
      word ≠ [] ∧ (∀ c ∈ word, Text.isWord c = true) ∧ s = bracedWord word ++ after := by
  constructor
  · intro h
    unfold placeholderAt? at h
    split at h
    · rename_i rest
      simp only at h
      split at h
      · rename_i tail hTail
        split at h
        · cases h
        · rename_i hNonempty
          cases h
          refine ⟨by simpa using hNonempty, fun c hc => List.mem_takeWhile_imp hc, ?_⟩
          rw [bracedWord, List.append_assoc, List.cons_append, List.cons_append, List.nil_append,
            ← hTail, List.takeWhile_append_dropWhile]
      · cases h
    · cases h
  · rintro ⟨hNonempty, hWord, rfl⟩
    have hShape : bracedWord word ++ after = '\x7b' :: (word ++ '\x7d' :: after) := by
      simp [bracedWord]
    rw [hShape, placeholderAt?]
    simp only [takeWhile_word hWord, dropWhile_word hWord]
    rw [if_neg (by simpa using hNonempty)]

theorem eq_of_bracedWord_begins {w word after : List Char}
    (hw : ∀ c ∈ w, Text.isWord c = true) (hWord : ∀ c ∈ word, Text.isWord c = true)
    (h : bracedWord w <+: bracedWord word ++ after) : w = word := by
  obtain ⟨tail, hTail⟩ := h
  simp only [bracedWord, List.cons_append, List.append_assoc, List.nil_append,
    List.cons.injEq, true_and] at hTail
  have hTake := congrArg (List.takeWhile Text.isWord) hTail
  rwa [takeWhile_word hw, takeWhile_word hWord] at hTake

theorem bracedWord_infix_append_iff {word front rest : List Char} (hFront : '\x7b' ∉ front) :
    bracedWord word <:+: front ++ rest ↔ bracedWord word <:+: rest := by
  induction front with
  | nil => rfl
  | cons c front ih =>
    rw [List.mem_cons, not_or] at hFront
    rw [List.cons_append, List.infix_cons_iff, ih hFront.2]
    constructor
    · rintro (hPrefix | hInfix)
      · obtain ⟨tail, hTail⟩ := hPrefix
        simp only [bracedWord, List.cons_append, List.cons.injEq] at hTail
        exact absurd hTail.1 hFront.1
      · exact hInfix
    · exact Or.inr

theorem holds_nil_iff {word : List Char} : Holds [] word ↔ False := by
  constructor
  · intro h
    have hLength := h.braced.length_le
    simp [bracedWord] at hLength
  · exact False.elim

/-- Behind a placeholder the search starts again. -/
theorem holds_bracedWord_append_iff {w word after : List Char} (hNonempty : word ≠ [])
    (hWord : ∀ c ∈ word, Text.isWord c = true) :
    Holds (bracedWord word ++ after) w ↔ w = word ∨ Holds after w := by
  have hNoBrace : '\x7b' ∉ word ++ ['\x7d'] := by
    intro hMem
    rcases List.mem_append.mp hMem with hMem | hMem
    · exact absurd (hWord _ hMem) (by rw [isWord_openBrace]; decide)
    · exact absurd hMem (by decide)
  constructor
  · rintro ⟨hne, hw, hBraced⟩
    have hSplit : bracedWord word ++ after = '\x7b' :: (word ++ ['\x7d'] ++ after) := rfl
    rw [hSplit, List.infix_cons_iff] at hBraced
    rcases hBraced with hPrefix | hInfix
    · exact Or.inl (eq_of_bracedWord_begins hw hWord hPrefix)
    · exact Or.inr ⟨hne, hw, (bracedWord_infix_append_iff hNoBrace).mp hInfix⟩
  · rintro (rfl | h)
    · exact ⟨hNonempty, hWord, ⟨[], after, by simp⟩⟩
    · exact ⟨h.nonempty, h.isWord, h.braced.trans (List.suffix_append _ _).isInfix⟩

/-- Where no placeholder starts, the first character counts for nothing. -/
theorem holds_cons_iff {w rest : List Char} {c : Char} (h : placeholderAt? (c :: rest) = none) :
    Holds (c :: rest) w ↔ Holds rest w := by
  constructor
  · rintro ⟨hne, hw, hBraced⟩
    rw [List.infix_cons_iff] at hBraced
    rcases hBraced with ⟨after, hAfter⟩ | hInfix
    · rw [placeholderAt?_eq_some_iff.mpr ⟨hne, hw, hAfter.symm⟩] at h
      cases h
    · exact ⟨hne, hw, hInfix⟩
  · intro h
    exact ⟨h.nonempty, h.isWord, h.braced.trans (List.suffix_cons c rest).isInfix⟩

/-! ## Scanning -/

def textPiece (pending : List Char) : List TemplatePiece :=
  if pending.isEmpty then [] else [.text (String.ofList pending.reverse)]

/-- The pieces from `s` on, `pending` being the reversed text before it. -/
def piecesFrom (pending s : List Char) : List TemplatePiece :=
  match _h : placeholderAt? s with
  | some (word, after) =>
    textPiece pending ++ .placeholder (String.ofList word) :: piecesFrom [] after
  | none =>
    match s with
    | [] => textPiece pending
    | c :: rest => piecesFrom (c :: pending) rest
termination_by s.length
decreasing_by
  · exact placeholderAt?_length _h
  · simp

section

variable {word rest : List Char} {c : Char} (offset : Nat) (pending after : List Char)

theorem placeholderAt?_bracedWord (hNonempty : word ≠ []) (hWord : ∀ c ∈ word, Text.isWord c = true) :
    placeholderAt? (bracedWord word ++ after) = some (word, after) :=
  placeholderAt?_eq_some_iff.mpr ⟨hNonempty, hWord, rfl⟩

theorem capturesFrom_nil : capturesFrom offset [] = [] := by
  rw [capturesFrom.eq_def]
  rfl

theorem capturesFrom_cons (h : placeholderAt? (c :: rest) = none) :
    capturesFrom offset (c :: rest) = capturesFrom (offset + c.utf8Size) rest := by
  rw [capturesFrom.eq_def]
  split
  · rename_i hAt
    cases h.symm.trans hAt
  · rfl

theorem capturesFrom_bracedWord (hNonempty : word ≠ [])
    (hWord : ∀ c ∈ word, Text.isWord c = true) :
    capturesFrom offset (bracedWord word ++ after) =
      ⟨offset, offset + ((String.ofList word).utf8ByteSize + 2), .ofList word⟩ ::
        capturesFrom (offset + ((String.ofList word).utf8ByteSize + 2)) after := by
  have hHere := placeholderAt?_bracedWord after hNonempty hWord
  rw [capturesFrom.eq_def]
  split
  · rename_i hAt
    cases hHere.symm.trans hAt
    rfl
  · rename_i hAt
    cases hHere.symm.trans hAt

theorem piecesFrom_nil : piecesFrom pending [] = textPiece pending := by
  rw [piecesFrom.eq_def]
  rfl

theorem piecesFrom_cons (h : placeholderAt? (c :: rest) = none) :
    piecesFrom pending (c :: rest) = piecesFrom (c :: pending) rest := by
  rw [piecesFrom.eq_def]
  split
  · rename_i hAt
    cases h.symm.trans hAt
  · rfl

theorem piecesFrom_bracedWord (hNonempty : word ≠ []) (hWord : ∀ c ∈ word, Text.isWord c = true) :
    piecesFrom pending (bracedWord word ++ after) =
      textPiece pending ++ .placeholder (.ofList word) :: piecesFrom [] after := by
  have hHere := placeholderAt?_bracedWord after hNonempty hWord
  rw [piecesFrom.eq_def]
  split
  · rename_i hAt
    cases hHere.symm.trans hAt
    rfl
  · rename_i hAt
    cases hHere.symm.trans hAt

end

/-- A text is read from the left: a placeholder as a whole, and all else character by character. -/
@[elab_as_elim]
theorem scan_induction {motive : List Char → Prop} (nil : motive [])
    (placeholder : ∀ word after, word ≠ [] → (∀ c ∈ word, Text.isWord c = true) → motive after →
      motive (bracedWord word ++ after))
    (char : ∀ c rest, placeholderAt? (c :: rest) = none → motive rest → motive (c :: rest))
    (s : List Char) : motive s := by
  induction s using (measure List.length).wf.induction with
  | h s ih =>
    cases hAt : placeholderAt? s with
    | some found =>
      obtain ⟨word, after⟩ := found
      have hAfter := ih after (placeholderAt?_length hAt)
      obtain ⟨hNonempty, hWord, rfl⟩ := placeholderAt?_eq_some_iff.mp hAt
      exact placeholder word after hNonempty hWord hAfter
    | none =>
      cases s with
      | nil => exact nil
      | cons c rest => exact char c rest hAt (ih rest (Nat.lt_succ_self _))

def placeholderName? : TemplatePiece → Option String
  | .text _ => none
  | .placeholder name => some name

theorem filterMap_textPiece (pending : List Char) :
    (textPiece pending).filterMap placeholderName? = [] := by
  unfold textPiece
  split <;> rfl

theorem names_capturesFrom (offset : Nat) (pending s : List Char) :
    (capturesFrom offset s).map (·.name) = (piecesFrom pending s).filterMap placeholderName? := by
  induction s using scan_induction generalizing offset pending with
  | nil => rw [capturesFrom_nil, piecesFrom_nil, filterMap_textPiece, List.map_nil]
  | placeholder word after hNonempty hWord ih =>
    have hName : placeholderName? (.placeholder (.ofList word)) = some (.ofList word) := rfl
    rw [capturesFrom_bracedWord _ _ hNonempty hWord, piecesFrom_bracedWord _ _ hNonempty hWord,
      List.map_cons, List.filterMap_append, filterMap_textPiece, List.nil_append,
      List.filterMap_cons_some hName, ih _ []]
  | char c rest hAt ih =>
    rw [capturesFrom_cons _ hAt, piecesFrom_cons _ hAt]
    exact ih _ _

/-! ## Cutting -/

open String (utf8Len)

theorem Split.upTo_eq {template : String} {front pending rest : List Char}
    (h : template.toList = front ++ pending.reverse ++ rest) (done : List TemplatePiece) :
    (⟨done, utf8Len front⟩ : Split).upTo template (utf8Len front + utf8Len pending) =
      done ++ textPiece pending := by
  rw [Split.upTo, textPiece]
  cases pending with
  | nil => simp
  | cons c pending =>
    have hMore : utf8Len front < utf8Len front + utf8Len (c :: pending) := by
      have hSize := c.utf8Size_pos
      rw [String.utf8Len_cons]
      omega
    have hCut := String.extract_of_valid front (c :: pending).reverse rest
    rw [String.utf8Len_reverse, ← h, String.ofList_toList] at hCut
    rw [if_pos hMore, hCut]
    rfl

theorem Split.add_eq {template : String} {front pending rest : List Char}
    (h : template.toList = front ++ pending.reverse ++ rest) (done : List TemplatePiece)
    (stop : Nat) (name : String) :
    Split.add template ⟨done, utf8Len front⟩ ⟨utf8Len front + utf8Len pending, stop, name⟩ =
      ⟨done ++ textPiece pending ++ [.placeholder name], stop⟩ := by
  rw [Split.add, Split.upTo_eq h]

theorem utf8Len_bracedWord (word : List Char) :
    utf8Len (bracedWord word) = (String.ofList word).utf8ByteSize + 2 := by
  have hOpen : '\x7b'.utf8Size = 1 := by decide
  have hClose : '\x7d'.utf8Size = 1 := by decide
  rw [← String.utf8Len_toList, String.toList_ofList]
  simp [bracedWord, hOpen, hClose]

/-- The scan has passed `pending` since the last cut. -/
theorem foldl_capturesFrom {template : String} {front pending s : List Char}
    (h : template.toList = front ++ pending.reverse ++ s) (done : List TemplatePiece) :
    ((capturesFrom (utf8Len front + utf8Len pending) s).foldl (Split.add template)
      ⟨done, utf8Len front⟩).upTo template template.utf8ByteSize = done ++ piecesFrom pending s := by
  induction s using scan_induction generalizing front pending done with
  | nil =>
    have hEnd : template.utf8ByteSize = utf8Len front + utf8Len pending := by
      rw [← String.utf8Len_toList, h]
      simp
    rw [capturesFrom_nil, piecesFrom_nil, hEnd]
    exact Split.upTo_eq h done
  | placeholder word after hNonempty hWord ih =>
    have hFront : template.toList =
        (front ++ pending.reverse ++ bracedWord word) ++ ([] : List Char).reverse ++ after := by
      rw [h]
      simp
    have hStop : utf8Len (front ++ pending.reverse ++ bracedWord word) =
        utf8Len front + utf8Len pending + ((String.ofList word).utf8ByteSize + 2) := by
      rw [String.utf8Len_append, String.utf8Len_append, String.utf8Len_reverse, utf8Len_bracedWord]
    have hRest := ih hFront (done ++ textPiece pending ++ [.placeholder (.ofList word)])
    simp only [hStop, String.utf8Len_nil, Nat.add_zero] at hRest
    rw [capturesFrom_bracedWord _ _ hNonempty hWord, List.foldl_cons, Split.add_eq h, hRest,
      piecesFrom_bracedWord _ _ hNonempty hWord]
    simp
  | char c rest hAt ih =>
    have hPassed : template.toList = front ++ (c :: pending).reverse ++ rest := by
      rw [h]
      simp
    have hRest := ih hPassed done
    rw [String.utf8Len_cons, ← Nat.add_assoc] at hRest
    rw [capturesFrom_cons _ hAt, piecesFrom_cons _ hAt]
    exact hRest

theorem pieces_eq (template : String) : pieces template = piecesFrom [] template.toList := by
  have hWhole : template.toList = [] ++ ([] : List Char).reverse ++ template.toList := rfl
  exact foldl_capturesFrom hWhole []

theorem placeholders_eq (template : String) :
    placeholders template = ((pieces template).filterMap placeholderName?).eraseDups := by
  rw [pieces_eq, ← names_capturesFrom 0, ← foldl_addNew, List.foldl_map]
  rfl

/-! ## Placeholders -/

theorem placeholder_mem_piecesFrom_iff (pending s : List Char) (name : String) :
    .placeholder name ∈ piecesFrom pending s ↔ Holds s name.toList := by
  have hText (pending : List Char) : .placeholder name ∉ textPiece pending := by
    unfold textPiece
    split <;> simp
  induction s using scan_induction generalizing pending with
  | nil => simp [piecesFrom_nil, hText, holds_nil_iff]
  | placeholder word after hNonempty hWord ih =>
    have hAfter : .placeholder name ∈ piecesFrom [] after ↔ Holds after name.toList := ih []
    rw [piecesFrom_bracedWord _ _ hNonempty hWord, List.mem_append, List.mem_cons, hAfter,
      holds_bracedWord_append_iff hNonempty hWord]
    simp [hText, String.ext_iff]
  | char c rest hAt ih =>
    rw [piecesFrom_cons _ hAt, holds_cons_iff hAt]
    exact ih (c :: pending)

theorem placeholder_mem_pieces_iff {template name : String} :
    .placeholder name ∈ pieces template ↔ Holds template.toList name.toList := by
  rw [pieces_eq]
  exact placeholder_mem_piecesFrom_iff [] template.toList name

theorem mem_placeholders_iff {template name : String} :
    name ∈ placeholders template ↔ Holds template.toList name.toList := by
  rw [placeholders_eq, List.mem_eraseDups, List.mem_filterMap, ← placeholder_mem_pieces_iff]
  constructor
  · rintro ⟨piece, hPiece, hName⟩
    cases piece with
    | text s => cases hName
    | placeholder other =>
      cases hName
      exact hPiece
  · exact fun h => ⟨.placeholder name, h, rfl⟩

end TraitClient.Template
