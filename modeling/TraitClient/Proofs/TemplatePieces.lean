import TraitClient.Proofs.EndpointText

/-!
# Splitting a template

Text and placeholders of a template take turns: two texts never follow each other, and a text has no
placeholder in it.  A template can be split into such pieces in one way only, and that is what
scanning it from the left does.
-/
namespace TraitClient.Template

def written : TemplatePiece → List Char
  | .text s => s.toList
  | .placeholder name => bracedWord name.toList

structure IsLiteral (s : String) : Prop where
  nonempty : s ≠ ""
  plain : ∀ word, ¬Holds s.toList word

structure IsName (name : String) : Prop where
  nonempty : name ≠ ""
  isWord : ∀ c ∈ name.toList, Text.isWord c = true

/-- A template taken apart as far as it can be. -/
structure IsSplit (template : String) (ps : List TemplatePiece) : Prop where
  lossless : ps.flatMap written = template.toList
  literals : ∀ s, .text s ∈ ps → IsLiteral s
  names : ∀ name, .placeholder name ∈ ps → IsName name
  separated : ∀ s s', ¬[TemplatePiece.text s, .text s'] <:+: ps

/-- Texts and placeholders taking turns, where placeholders may also follow each other. -/
inductive Alternates : List TemplatePiece → Prop
  | nil : Alternates []
  | text {s : String} (h : IsLiteral s) : Alternates [.text s]
  | placeholder {name : String} {rest : List TemplatePiece} (h : IsName name)
      (more : Alternates rest) : Alternates (.placeholder name :: rest)
  | between {s name : String} {rest : List TemplatePiece} (hText : IsLiteral s) (h : IsName name)
      (more : Alternates rest) : Alternates (.text s :: .placeholder name :: rest)

variable {ps : List TemplatePiece} {s name : String} {front rest pending : List Char}

theorem alternates_of_separated (hLiterals : ∀ s, .text s ∈ ps → IsLiteral s)
    (hNames : ∀ name, .placeholder name ∈ ps → IsName name)
    (hSeparated : ∀ s s', ¬[TemplatePiece.text s, .text s'] <:+: ps) : Alternates ps := by
  induction ps with
  | nil => exact .nil
  | cons p rest ih =>
    have hRest : Alternates rest := ih (fun s hs => hLiterals s (List.mem_cons_of_mem _ hs))
      (fun name hName => hNames name (List.mem_cons_of_mem _ hName))
      fun s s' hInfix => hSeparated s s' (hInfix.trans (List.suffix_cons p rest).isInfix)
    cases p with
    | placeholder name => exact .placeholder (hNames name List.mem_cons_self) hRest
    | text s =>
      have hText := hLiterals s List.mem_cons_self
      cases hRest with
      | nil => exact .text hText
      | text => exact absurd (List.prefix_append _ []).isInfix (hSeparated s _)
      | placeholder hName more => exact .between hText hName more
      | between => exact absurd (List.prefix_append _ _).isInfix (hSeparated s _)

/-! ## Scanning text -/

theorem IsName.piecesFrom (h : IsName name) (pending after : List Char) :
    piecesFrom pending (bracedWord name.toList ++ after) =
      textPiece pending ++ .placeholder name :: piecesFrom [] after := by
  rw [piecesFrom_bracedWord _ _ (by simpa using h.nonempty) h.isWord, String.ofList_toList]

/-- No placeholder begins in the first of two texts, even if it ends in the second one. -/
def NoneBegins (front rest : List Char) : Prop :=
  ∀ back, back ≠ [] → back <:+ front → placeholderAt? (back ++ rest) = none

theorem noneBegins_nil (rest : List Char) : NoneBegins [] rest := fun _ hNonempty hSuffix =>
  absurd (List.suffix_nil.mp hSuffix) hNonempty

theorem piecesFrom_append (h : NoneBegins front rest) (pending : List Char) :
    piecesFrom pending (front ++ rest) = piecesFrom (front.reverse ++ pending) rest := by
  induction front generalizing pending with
  | nil => rfl
  | cons c front ih =>
    have hFront : NoneBegins front rest := fun back hNonempty hSuffix =>
      h back hNonempty (hSuffix.trans (List.suffix_cons c front))
    have hHere : placeholderAt? (c :: (front ++ rest)) = none := h _ (by simp) List.suffix_rfl
    rw [List.cons_append, piecesFrom_cons _ hHere, ih hFront]
    simp

theorem NoneBegins.snoc {c : Char} (h : NoneBegins front (c :: rest))
    (hHere : placeholderAt? (c :: rest) = none) : NoneBegins (front ++ [c]) rest := by
  intro back hNonempty hSuffix
  rcases List.suffix_concat_iff.mp hSuffix with rfl | ⟨before, rfl, hBefore⟩
  · exact absurd rfl hNonempty
  · rw [List.append_assoc, List.singleton_append]
    by_cases hEmpty : before = []
    · rw [hEmpty]
      exact hHere
    · exact h before hEmpty hBefore

theorem noneBegins_of_plain (h : ∀ word, ¬Holds front word)
    (hRest : ∀ c ∈ rest.head?, c = '\x7b') : NoneBegins front rest := by
  rintro back hNonempty hSuffix
  rw [Option.eq_none_iff_forall_ne_some]
  rintro ⟨word, after⟩ hAt
  obtain ⟨hWord, hIsWord, hText⟩ := placeholderAt?_eq_some_iff.mp hAt
  rcases List.append_eq_append_iff.mp hText.symm with ⟨more, hBack, -⟩ | ⟨inside, hBraced, hAfter⟩
  · have hPrefix : bracedWord word <+: back := ⟨more, hBack.symm⟩
    exact h word ⟨hWord, hIsWord, hPrefix.isInfix.trans hSuffix.isInfix⟩
  · -- The placeholder would have the opening brace that follows in its word.
    obtain ⟨first, more, rfl⟩ := List.exists_cons_of_ne_nil hNonempty
    cases inside with
    | nil =>
      have hPrefix : bracedWord word <+: first :: more := ⟨[], by rw [hBraced]; simp⟩
      exact h word ⟨hWord, hIsWord, hPrefix.isInfix.trans hSuffix.isInfix⟩
    | cons c inside =>
      obtain rfl : c = '\x7b' := hRest c (by rw [hAfter]; rfl)
      have hMem : '\x7b' ∈ word ++ ['\x7d'] := by
        have hTail : word ++ ['\x7d'] = more ++ '\x7b' :: inside := (List.cons.inj hBraced).2
        rw [hTail]
        simp
      rcases List.mem_append.mp hMem with hMem | hMem
      · exact absurd (hIsWord _ hMem) (by rw [isWord_openBrace]; decide)
      · exact absurd hMem (by decide)

theorem NoneBegins.plain (h : NoneBegins front rest) (word : List Char) : ¬Holds front word := by
  intro hHolds
  obtain ⟨before, after, hFront⟩ := hHolds.braced
  have hSuffix : bracedWord word ++ after <:+ front :=
    ⟨before, by rw [← hFront, List.append_assoc]⟩
  have hNone := h _ (by simp [bracedWord]) hSuffix
  rw [List.append_assoc,
    placeholderAt?_eq_some_iff.mpr ⟨hHolds.nonempty, hHolds.isWord, rfl⟩] at hNone
  cases hNone

/-! ## One way to split -/

theorem textPiece_reverse (h : IsLiteral s) : textPiece s.toList.reverse = [.text s] := by
  have hSome : s.toList.reverse.isEmpty = false := by simpa using h.nonempty
  rw [textPiece, hSome, List.reverse_reverse, String.ofList_toList]
  rfl

/-- Pieces that take turns are found again in their text. -/
theorem Alternates.piecesFrom_written (h : Alternates ps) :
    piecesFrom [] (ps.flatMap written) = ps := by
  induction h with
  | nil => exact piecesFrom_nil []
  | @text s h =>
    have hNone : NoneBegins s.toList [] := noneBegins_of_plain h.plain (by simp)
    rw [List.flatMap_singleton, written, ← List.append_nil s.toList, piecesFrom_append hNone,
      piecesFrom_nil, List.append_nil, textPiece_reverse h]
  | placeholder h _ ih =>
    rw [List.flatMap_cons, written, h.piecesFrom, ih]
    rfl
  | @between s name rest hText h _ ih =>
    have hNone : NoneBegins s.toList (bracedWord name.toList ++ rest.flatMap written) :=
      noneBegins_of_plain hText.plain (by simp [bracedWord])
    rw [List.flatMap_cons, List.flatMap_cons, written, written, piecesFrom_append hNone,
      h.piecesFrom, List.append_nil, textPiece_reverse hText, ih]
    rfl

theorem IsSplit.eq_pieces {template : String} (h : IsSplit template ps) : ps = pieces template := by
  have hTurns := alternates_of_separated h.literals h.names h.separated
  rw [pieces_eq, ← h.lossless, hTurns.piecesFrom_written]

/-! ## Splitting -/

theorem Alternates.textPiece_append (h : NoneBegins pending.reverse rest) (hName : IsName name)
    (hMore : Alternates ps) : Alternates (textPiece pending ++ .placeholder name :: ps) := by
  unfold textPiece
  split
  · exact .placeholder hName hMore
  · rename_i hSome
    refine .between ⟨?_, ?_⟩ hName hMore
    · simpa [← String.toList_inj] using hSome
    · rw [String.toList_ofList]
      exact h.plain

theorem alternates_textPiece (h : NoneBegins pending.reverse rest) :
    Alternates (textPiece pending) := by
  unfold textPiece
  split
  · exact .nil
  · rename_i hSome
    refine .text ⟨?_, ?_⟩
    · simpa [← String.toList_inj] using hSome
    · rw [String.toList_ofList]
      exact h.plain

theorem flatMap_written_textPiece (pending : List Char) :
    (textPiece pending).flatMap written = pending.reverse := by
  unfold textPiece
  split
  · rename_i hEmpty
    rw [List.isEmpty_iff.mp hEmpty]
    rfl
  · simp [written]

/-- The scan keeps apart what it has passed, in which no placeholder begins. -/
theorem piecesFrom_alternates (h : NoneBegins pending.reverse rest) :
    Alternates (piecesFrom pending rest) ∧
      (piecesFrom pending rest).flatMap written = pending.reverse ++ rest := by
  induction rest using scan_induction generalizing pending with
  | nil =>
    rw [piecesFrom_nil, flatMap_written_textPiece, List.append_nil]
    exact ⟨alternates_textPiece h, rfl⟩
  | placeholder word after hNonempty hWord ih =>
    have hName : IsName (String.ofList word) :=
      ⟨by simpa [← String.toList_inj] using hNonempty, by rwa [String.toList_ofList]⟩
    have hStart : NoneBegins ([] : List Char).reverse after := noneBegins_nil after
    obtain ⟨hMore, hText⟩ := ih hStart
    rw [piecesFrom_bracedWord _ _ hNonempty hWord]
    refine ⟨hMore.textPiece_append h hName, ?_⟩
    rw [List.flatMap_append, flatMap_written_textPiece, List.flatMap_cons, hText, written,
      String.toList_ofList]
    rfl
  | char c rest hAt ih =>
    have hPassed : NoneBegins (c :: pending).reverse rest := by
      rw [List.reverse_cons]
      exact h.snoc hAt
    obtain ⟨hTurns, hText⟩ := ih hPassed
    rw [piecesFrom_cons _ hAt]
    exact ⟨hTurns, by simpa using hText⟩

theorem Alternates.literals (h : Alternates ps) : ∀ s, .text s ∈ ps → IsLiteral s := by
  induction h with
  | nil => simp
  | text h => simpa using h
  | placeholder _ _ ih => simpa using ih
  | between hText _ _ ih => simpa using ⟨hText, ih⟩

theorem Alternates.names (h : Alternates ps) : ∀ name, .placeholder name ∈ ps → IsName name := by
  induction h with
  | nil => simp
  | text => simp
  | placeholder h _ ih => simpa using ⟨h, ih⟩
  | between _ h _ ih => simpa using ⟨h, ih⟩

theorem Alternates.separated (h : Alternates ps) (s s' : String) :
    ¬[TemplatePiece.text s, .text s'] <:+: ps := by
  induction h with
  | nil => simp
  | text => simp [List.infix_cons_iff]
  | placeholder _ _ ih => simpa [List.infix_cons_iff] using ih
  | between _ _ _ ih => simpa [List.infix_cons_iff] using ih

theorem isSplit_pieces (template : String) : IsSplit template (pieces template) := by
  have hStart : NoneBegins ([] : List Char).reverse template.toList :=
    noneBegins_nil template.toList
  obtain ⟨hTurns, hText⟩ := piecesFrom_alternates hStart
  rw [pieces_eq]
  exact ⟨hText, hTurns.literals, hTurns.names, hTurns.separated⟩

/-- A template is split without loss and as far as it can be, there is no other way to do so, and
its placeholders are those of the pieces without the ones that come again. -/
theorem pieces_splitTemplate (template : String) :
    IsSplit template (pieces template) ∧
      (∀ ps, IsSplit template ps → ps = pieces template) ∧
      placeholders template = ((pieces template).filterMap placeholderName?).eraseDups :=
  ⟨isSplit_pieces template, fun _ h => h.eq_pieces, placeholders_eq template⟩

end TraitClient.Template
