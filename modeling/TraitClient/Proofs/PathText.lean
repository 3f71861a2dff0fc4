import TraitClient.Proofs.LegibleCode

/-!
# Paths as texts

Types and traits carry their paths as one text.  Segments without a colon can be read back from the
text they are joined to, so that a path is well-formed as soon as its segments are, and anchoring
keeps it so.
-/
namespace TraitClient

/-! ## Splitting what was joined -/

structure Unbroken (segment : String) : Prop where
  nonempty : segment.toList ≠ []
  colon : ':' ∉ segment.toList

theorem splitPathChars_unbroken {a : List Char} (h : ':' ∉ a) (pending : List Char) :
    splitPathChars pending a = [pending.reverse ++ a] := by
  induction a generalizing pending with
  | nil => simp [splitPathChars]
  | cons c a ih =>
    obtain ⟨hHead, hRest⟩ := not_or.mp (List.mem_cons.not.mp h)
    rw [splitPathChars, ih hRest]
    · simp
    · rintro rest rfl
      exact absurd rfl hHead

theorem splitPathChars_cut {a : List Char} (h : ':' ∉ a) (pending rest : List Char) :
    splitPathChars pending (a ++ ':' :: ':' :: rest) =
      (pending.reverse ++ a) :: splitPathChars [] rest := by
  induction a generalizing pending with
  | nil => simp [splitPathChars]
  | cons c a ih =>
    obtain ⟨hHead, hRest⟩ := not_or.mp (List.mem_cons.not.mp h)
    rw [List.cons_append, splitPathChars, ih hRest]
    · simp
    · rintro rest rfl
      exact absurd rfl hHead

theorem joinPath_cons_cons (a b : String) (rest : List String) :
    joinPath (a :: b :: rest) = a ++ "::" ++ joinPath (b :: rest) := String.intercalate_cons_cons

theorem joinPath_singleton (a : String) : joinPath [a] = a := String.intercalate_singleton

theorem splitPath_joinPath {segments : List String} (hNonempty : segments ≠ [])
    (h : ∀ s ∈ segments, Unbroken s) : splitPath (joinPath segments) = segments := by
  induction segments with
  | nil => exact absurd rfl hNonempty
  | cons a rest ih =>
    obtain ⟨hHead, hRest⟩ := List.forall_mem_cons.mp h
    cases rest with
    | nil =>
      rw [joinPath_singleton, splitPath, splitPathChars_unbroken hHead.colon]
      simp
    | cons b rest =>
      have hText : (joinPath (a :: b :: rest)).toList =
          a.toList ++ ':' :: ':' :: (joinPath (b :: rest)).toList := by
        rw [joinPath_cons_cons]
        simp
      rw [splitPath, hText, splitPathChars_cut hHead.colon, List.map_cons, List.reverse_nil,
        List.nil_append, String.ofList_toList]
      exact congrArg _ (ih (List.cons_ne_nil _ _) hRest)

theorem splitPathChars_eq_cons (pending s : List Char) :
    ∃ piece pieces, splitPathChars pending s = piece :: pieces := by
  induction pending, s using splitPathChars.induct with
  | case1 pending rest _ => exact ⟨_, _, by rw [splitPathChars]⟩
  | case2 pending c rest hCut ih =>
    obtain ⟨piece, pieces, hPieces⟩ := ih
    exact ⟨piece, pieces, by rw [splitPathChars, hPieces]; exact hCut⟩
  | case3 pending => exact ⟨pending.reverse, [], by rw [splitPathChars]⟩

theorem joinPath_splitPathChars (pending s : List Char) :
    joinPath ((splitPathChars pending s).map String.ofList) =
      String.ofList (pending.reverse ++ s) := by
  induction pending, s using splitPathChars.induct with
  | case1 pending rest ih =>
    obtain ⟨piece, pieces, hPieces⟩ := splitPathChars_eq_cons [] rest
    rw [hPieces, List.map_cons] at ih
    rw [splitPathChars, hPieces, List.map_cons, List.map_cons, joinPath_cons_cons, ih]
    apply String.toList_inj.mp
    simp
  | case2 pending c rest hCut ih =>
    rw [splitPathChars, ih]
    · simp
    · exact hCut
  | case3 pending => simp [splitPathChars, joinPath_singleton]

theorem joinPath_splitPath (path : String) : joinPath (splitPath path) = path := by
  rw [splitPath, joinPath_splitPathChars]
  simp

theorem splitPath_ne_nil (path : String) : splitPath path ≠ [] := by
  obtain ⟨piece, pieces, hPieces⟩ := splitPathChars_eq_cons [] path.toList
  simp [splitPath, hPieces]

theorem joinPath_head {segments : List String} (hNonempty : segments ≠ [])
    (h : ∀ s ∈ segments, Unbroken s) : ∃ c rest, (joinPath segments).toList = c :: rest ∧ c ≠ ':' := by
  cases segments with
  | nil => exact absurd rfl hNonempty
  | cons a rest =>
    have hHead := h a List.mem_cons_self
    obtain ⟨c, cs, hText⟩ := List.exists_cons_of_ne_nil hHead.nonempty
    have hColon : c ≠ ':' := fun hEq => hHead.colon (by simp [hText, hEq])
    cases rest with
    | nil => exact ⟨c, cs, by rw [joinPath_singleton, hText], hColon⟩
    | cons b rest =>
      refine ⟨c, cs ++ ("::" ++ joinPath (b :: rest)).toList, ?_, hColon⟩
      rw [joinPath_cons_cons]
      simp [hText]

theorem dropLeadingColons_of_head {c : Char} (h : c ≠ ':') (rest : List Char) :
    dropLeadingColons (c :: rest) = c :: rest := by
  rw [dropLeadingColons]
  intro rest' hEq
  exact h (List.cons.inj hEq).1

namespace Code

variable {segments : List String}

theorem pathSegments_joinPath (hNonempty : segments ≠ []) (h : ∀ s ∈ segments, Unbroken s) :
    pathSegments (joinPath segments) = segments := by
  obtain ⟨c, rest, hText, hColon⟩ := joinPath_head hNonempty h
  rw [pathSegments, withoutLeadingColons, hText, dropLeadingColons_of_head hColon, ← hText,
    String.ofList_toList]
  exact splitPath_joinPath hNonempty h

theorem pathSegments_global (hNonempty : segments ≠ []) (h : ∀ s ∈ segments, Unbroken s) :
    pathSegments ("::" ++ joinPath segments) = segments := by
  obtain ⟨c, rest, hText, hColon⟩ := joinPath_head hNonempty h
  have hGlobal : ("::" ++ joinPath segments).toList = ':' :: ':' :: c :: rest := by simp [hText]
  rw [pathSegments, withoutLeadingColons, hGlobal, dropLeadingColons,
    dropLeadingColons_of_head hColon, ← hText, String.ofList_toList]
  exact splitPath_joinPath hNonempty h

theorem isGlobalPath_joinPath (hNonempty : segments ≠ []) (h : ∀ s ∈ segments, Unbroken s) :
    isGlobalPath (joinPath segments) = false := by
  obtain ⟨c, rest, hText, hColon⟩ := joinPath_head hNonempty h
  rw [isGlobalPath, hText]
  simp [List.isPrefixOf, Ne.symm hColon]

theorem isGlobalPath_global (segments : List String) :
    isGlobalPath ("::" ++ joinPath segments) = true := by
  simp [isGlobalPath, List.isPrefixOf]

/-! ## Segments are unbroken -/

theorem unbroken_of_isToken {name : String} (h : (Word.ident name).isToken = true) :
    Unbroken name := by
  refine ⟨fun hNil => ?_, not_mem_of_isToken h (by decide) (by decide)⟩
  simp only [Word.isToken, hNil] at h
  cases h

theorem IsSegment.unbroken {name : String} (h : IsSegment name) : Unbroken name :=
  unbroken_of_isToken h.token

theorem isPath_joinPath (hNonempty : segments ≠ []) (h : ∀ s ∈ segments, IsSegment s)
    (hHead : segments.head? ≠ some "try") : IsPath (joinPath segments) := by
  have hSegments := pathSegments_joinPath hNonempty fun s hs => (h s hs).unbroken
  constructor
  · rw [hSegments]
    exact h
  · rw [hSegments]
    exact .inr hHead

theorem isPath_global (hNonempty : segments ≠ []) (h : ∀ s ∈ segments, IsSegment s) :
    IsPath ("::" ++ joinPath segments) := by
  have hSegments := pathSegments_global hNonempty fun s hs => (h s hs).unbroken
  constructor
  · rw [hSegments]
    exact h
  · exact .inl (isGlobalPath_global segments)

theorem IsName.isPath {name : String} (h : IsName name) : IsPath name := by
  rw [← joinPath_singleton name]
  refine isPath_joinPath (List.cons_ne_nil _ _) (by simpa using h.isSegment) fun hTry => ?_
  obtain rfl : name = "try" := by simpa using hTry
  exact absurd h.plain (by decide)

end Code
end TraitClient
