import TraitClient.Proofs.ForeignPaths

/-!
# What anchored paths mean

A path means something else in each module it may stand in.  Its anchored form means in every module,
whatever modules there are, what the path means in its own, and there is nothing left to anchor in a
path that starts at the crate.
-/
namespace TraitClient

open Code (isGlobalPath pathSegments)

/-! ## The meaning of a path -/

/-- What a path stands for if all that is known are the modules of the crate. -/
inductive PathMeaning
  | inCrate (path : List String)
  | outside (path : List String)
  | builtIn (name : String)
  deriving DecidableEq

def movesModule (segment : String) : Bool := segment == "self" || segment == "super"

/-- The meaning of segments in a module.  Those in front that move do so from the module on, each
`super` one module up, and no further than to the root. -/
def segmentsMeaning (modulePath : List String) (modules : List (List String))
    (segments : List String) : PathMeaning :=
  let moves := segments.takeWhile movesModule
  match segments with
  | [] => .inCrate modulePath
  | first :: rest =>
    if first = "crate" then .inCrate rest
    else if moves ≠ [] then
      .inCrate (modulePath.take (modulePath.length - moves.count "super") ++
        (first :: rest).drop moves.length)
    else if rest = [] ∧ TypeRef.isPrimitiveName first = true then .builtIn first
    else if rest = [] ∨ modulePath ++ [first] ∈ modules then .inCrate (modulePath ++ first :: rest)
    else .outside (first :: rest)

/-- The meaning of a path in a module, among the modules of its crate. -/
def pathMeaning (modulePath : List String) (modules : List (List String)) (path : String) :
    PathMeaning :=
  if isGlobalPath path then .outside (pathSegments path)
  else segmentsMeaning modulePath modules (splitPath path)

theorem segmentsMeaning_crate (modulePath : List String) (modules : List (List String))
    (rest : List String) : segmentsMeaning modulePath modules ("crate" :: rest) = .inCrate rest := by
  rw [segmentsMeaning, if_pos rfl]

theorem segmentsMeaning_builtIn (modulePath : List String) (modules : List (List String))
    {name : String} (h : TypeRef.isPrimitiveName name = true) :
    segmentsMeaning modulePath modules [name] = .builtIn name := by
  have hAll : ∀ name ∈ "str" :: TypeRef.scalarNames,
      name ≠ "crate" ∧ movesModule name = false := by decide
  obtain ⟨hCrate, hMoves⟩ := hAll name (by simpa [TypeRef.isPrimitiveName] using h)
  simp [segmentsMeaning, hCrate, hMoves, h]

theorem segmentsMeaning_lone {modulePath : List String} {modules : List (List String)}
    {name : String} (hWord : name ≠ "crate" ∧ name ≠ "self" ∧ name ≠ "super")
    (h : TypeRef.isPrimitiveName name = false) :
    segmentsMeaning modulePath modules [name] = .inCrate (modulePath ++ [name]) := by
  simp [segmentsMeaning, movesModule, hWord, h]

theorem segmentsMeaning_below {modulePath more : List String} {modules : List (List String)}
    {first second : String} (hWord : first ∉ moduleWords) :
    segmentsMeaning modulePath modules (first :: second :: more) =
      if modulePath ++ [first] ∈ modules then .inCrate (modulePath ++ first :: second :: more)
      else .outside (first :: second :: more) := by
  rw [not_mem_moduleWords] at hWord
  simp [segmentsMeaning, movesModule, hWord]

/-! ## Segments that can be read back -/

/-- Segments that are what their text is split into.  They may have single colons. -/
def IsSplit (segments : List String) : Prop := splitPath (joinPath segments) = segments

theorem isSplit_splitPath (path : String) : IsSplit (splitPath path) := by
  rw [IsSplit, joinPath_splitPath]

theorem splitPathChars_rest {pending s piece : List Char} {pieces : List (List Char)}
    (h : splitPathChars pending s = piece :: pieces) :
    pieces = [] ∨ ∃ s', pieces = splitPathChars [] s' := by
  induction pending, s using splitPathChars.induct with
  | case1 pending rest _ =>
    rw [splitPathChars] at h
    exact .inr ⟨rest, (List.cons.inj h).2.symm⟩
  | case2 pending c rest hCut ih =>
    rw [splitPathChars] at h
    · exact ih h
    · exact hCut
  | case3 pending =>
    rw [splitPathChars] at h
    exact .inl (List.cons.inj h).2.symm

theorem IsSplit.tail {first : String} {rest : List String} (h : IsSplit (first :: rest))
    (hNonempty : rest ≠ []) : IsSplit rest := by
  obtain ⟨piece, pieces, hPieces⟩ := splitPathChars_eq_cons [] (joinPath (first :: rest)).toList
  have hRest : pieces.map String.ofList = rest := by
    rw [IsSplit, splitPath, hPieces, List.map_cons] at h
    exact (List.cons.inj h).2
  rcases splitPathChars_rest hPieces with rfl | ⟨s, rfl⟩
  · exact absurd hRest.symm hNonempty
  · have hText : rest = splitPath (String.ofList s) := by
      rw [splitPath, String.toList_ofList, hRest]
    exact hText ▸ isSplit_splitPath _

theorem IsSplit.drop {segments : List String} (h : IsSplit segments) (k : Nat)
    (hNonempty : segments.drop k ≠ []) : IsSplit (segments.drop k) := by
  induction k generalizing segments with
  | zero => exact h
  | succ k ih =>
    cases segments with
    | nil => exact h
    | cons first rest =>
      have hRest : rest ≠ [] := by
        rintro rfl
        simp at hNonempty
      exact ih (h.tail hRest) hNonempty

theorem IsSplit.cons {first : String} {rest : List String} (hFirst : ':' ∉ first.toList)
    (h : rest = [] ∨ IsSplit rest) : IsSplit (first :: rest) := by
  cases rest with
  | nil =>
    rw [IsSplit, joinPath_singleton, splitPath, splitPathChars_unbroken hFirst]
    simp
  | cons second rest =>
    have hRest : IsSplit (second :: rest) := h.resolve_left (List.cons_ne_nil _ _)
    have hText : (joinPath (first :: second :: rest)).toList =
        first.toList ++ ':' :: ':' :: (joinPath (second :: rest)).toList := by
      rw [joinPath_cons_cons]
      simp
    rw [IsSplit, splitPath, hText, splitPathChars_cut hFirst, List.map_cons, List.reverse_nil,
      List.nil_append, String.ofList_toList]
    exact congrArg _ hRest

theorem IsSplit.append {front rest : List String} (hFront : ∀ x ∈ front, ':' ∉ x.toList)
    (h : rest = [] ∨ IsSplit rest) : front ++ rest = [] ∨ IsSplit (front ++ rest) := by
  induction front with
  | nil => exact h
  | cons first front ih =>
    obtain ⟨hHead, hTail⟩ := List.forall_mem_cons.mp hFront
    exact .inr (.cons hHead (ih hTail))

/-! ## Paths from the crate -/

theorem isGlobalPath_crate (path : List String) :
    isGlobalPath (joinPath ("crate" :: path)) = false := by
  obtain ⟨s, hText⟩ := crateLocal_head [] path
  rw [crateLocal, List.cons_append, List.nil_append] at hText
  rw [isGlobalPath, hText]
  rfl

theorem pathMeaning_crate {path : List String} (h : path = [] ∨ IsSplit path)
    (modulePath : List String) (modules : List (List String)) :
    pathMeaning modulePath modules (joinPath ("crate" :: path)) = .inCrate path := by
  have hSplit : IsSplit ("crate" :: path) := .cons (by decide) h
  rw [pathMeaning, isGlobalPath_crate, if_neg Bool.false_ne_true, hSplit, segmentsMeaning_crate]

theorem pathMeaning_global {path : String} (hPath : isGlobalPath path = false)
    (modulePath : List String) (modules : List (List String)) :
    pathMeaning modulePath modules ("::" ++ path) = .outside (splitPath path) := by
  have hLocal : dropLeadingColons path.toList = path.toList := by
    unfold dropLeadingColons
    split
    · rename_i rest hText
      rw [isGlobalPath, hText] at hPath
      exact absurd hPath (by simp [List.isPrefixOf])
    · rfl
  have hDrop : withoutLeadingColons ("::" ++ path) = path := by
    have hText : ("::" ++ path).toList = ':' :: ':' :: path.toList := by simp
    rw [withoutLeadingColons, hText, dropLeadingColons, hLocal, String.ofList_toList]
  have hGlobal : isGlobalPath ("::" ++ path) = true := by simp [isGlobalPath, List.isPrefixOf]
  rw [pathMeaning, hGlobal, if_pos rfl, pathSegments, hDrop]

/-! ## Anchored paths -/

/-- Climbing takes all moves off the front, and one module off for each `super`. -/
theorem climb_eq (base segments : List String) :
    climb base segments =
      (base.take (base.length - (segments.takeWhile movesModule).count "super"),
        segments.drop (segments.takeWhile movesModule).length) := by
  induction segments generalizing base with
  | nil => simp [climb]
  | cons first rest ih =>
    rw [climb]
    split
    · rename_i hSelf
      obtain rfl := eq_of_beq hSelf
      rw [ih, List.takeWhile_cons_of_pos (by decide)]
      simp
    · rename_i hSelf
      split
      · rename_i hSuper
        obtain rfl := eq_of_beq hSuper
        rw [ih, List.takeWhile_cons_of_pos (by decide), List.dropLast_eq_take, List.take_take]
        simp only [List.length_take, List.count_cons_self, List.length_cons, List.drop_succ_cons]
        congr 2
        omega
      · rename_i hSuper
        have hStays : movesModule first = false := by
          rw [movesModule, Bool.eq_false_iff.mpr hSelf, Bool.eq_false_iff.mpr hSuper, Bool.or_self]
        rw [List.takeWhile_cons_of_neg (by simp [hStays])]
        simp

theorem segmentsMeaning_climbs {first : String} {rest : List String}
    (hWord : first = "self" ∨ first = "super") (modulePath : List String)
    (modules : List (List String)) :
    segmentsMeaning modulePath modules (first :: rest) =
      .inCrate ((climb modulePath (first :: rest)).1 ++ (climb modulePath (first :: rest)).2) := by
  have hMoves : movesModule first = true := by simpa [movesModule] using hWord
  have hCrate : first ≠ "crate" := by
    rintro rfl
    exact absurd hMoves (by decide)
  have hTaken : (first :: rest).takeWhile movesModule ≠ [] := by
    simp [List.takeWhile_cons_of_pos hMoves]
  rw [segmentsMeaning, if_neg hCrate, if_pos hTaken, climb_eq]

/-- How a path is anchored, by what it means. -/
inductive AnchorOf (path : String) : PathMeaning → String → Prop
  | inCrate {full : List String} (h : full = [] ∨ IsSplit full) :
    AnchorOf path (.inCrate full) (joinPath ("crate" :: full))
  | outside : AnchorOf path (.outside (splitPath path)) ("::" ++ path)
  | builtIn {name : String} (h : TypeRef.isPrimitiveName name = true) (hAlone : splitPath path = [name]) :
    AnchorOf path (.builtIn name) path

variable {path : String} {modulePath : List String} {modules : List (List String)}

theorem anchorPath_anchorOf (hModule : ∀ x ∈ modulePath, ':' ∉ x.toList) :
    AnchorOf path (segmentsMeaning modulePath modules (splitPath path))
      (anchorPath path modulePath modules) := by
  have hSplit := isSplit_splitPath path
  have hText := joinPath_splitPath path
  have hAnchoring := anchorPath_anchoring path modulePath modules
  generalize hSegments : splitPath path = segments at hSplit hText hAnchoring ⊢
  generalize anchorPath path modulePath modules = anchored at hAnchoring ⊢
  have hBelow (base : List String) (hBase : ∀ x ∈ base, ':' ∉ x.toList) :
      AnchorOf path (.inCrate (base ++ segments)) (crateLocal base segments) :=
    .inCrate (IsSplit.append hBase (.inr hSplit))
  cases hAnchoring with
  | crate =>
    rw [segmentsMeaning_crate, ← hText]
    exact .inCrate (or_iff_not_imp_left.mpr hSplit.tail)
  | climbs hWord =>
    rw [segmentsMeaning_climbs hWord]
    refine .inCrate (IsSplit.append (fun x hx => ?_) (or_iff_not_imp_left.mpr fun hLeft => ?_))
    · rw [climb_eq] at hx
      exact hModule x (List.mem_of_mem_take hx)
    · rw [climb_eq] at hLeft ⊢
      exact hSplit.drop _ hLeft
  | builtIn _ hBuiltIn =>
    rw [segmentsMeaning_builtIn _ _ hBuiltIn]
    exact .builtIn hBuiltIn hSegments
  | lone hWord hName =>
    rw [segmentsMeaning_lone hWord hName]
    exact hBelow modulePath hModule
  | child hWord hChild =>
    rw [segmentsMeaning_below (not_mem_moduleWords.mpr hWord), if_pos hChild]
    exact hBelow modulePath hModule
  | foreign hWord hNoChild =>
    rw [segmentsMeaning_below (not_mem_moduleWords.mpr hWord), if_neg hNoChild, ← hSegments]
    exact .outside

/-- An anchored path means what it was anchored for, wherever it stands. -/
theorem AnchorOf.pathMeaning {meaning : PathMeaning} {anchored : String}
    (h : AnchorOf path meaning anchored) (hPath : isGlobalPath path = false) (modulePath : List String)
    (modules : List (List String)) : pathMeaning modulePath modules anchored = meaning := by
  cases h with
  | inCrate h => exact pathMeaning_crate h modulePath modules
  | outside => exact pathMeaning_global hPath modulePath modules
  | builtIn h hAlone =>
    rw [TraitClient.pathMeaning, hPath, if_neg Bool.false_ne_true, hAlone,
      segmentsMeaning_builtIn modulePath modules h]

def StartsAtCrate (path : String) : Prop := (splitPath path).head? = some "crate"

theorem AnchorOf.startsAtCrate_iff {meaning : PathMeaning} {anchored : String}
    (h : AnchorOf path meaning anchored) :
    StartsAtCrate anchored ↔ ∃ full, meaning = .inCrate full := by
  cases h with
  | @inCrate full h =>
    have hSplit : IsSplit ("crate" :: full) := .cons (by decide) h
    rw [StartsAtCrate, hSplit]
    exact iff_of_true rfl ⟨_, rfl⟩
  | outside =>
    have hHead : splitPath ("::" ++ path) = "" :: splitPath path := by
      have hText : ("::" ++ path).toList = ':' :: ':' :: path.toList := by simp
      rw [splitPath, hText, splitPathChars]
      rfl
    rw [StartsAtCrate, hHead]
    exact iff_of_false (by simp) (by simp)
  | @builtIn name h hAlone =>
    have hCrate : name ≠ "crate" := by
      rintro rfl
      exact absurd h (by decide)
    rw [StartsAtCrate, hAlone]
    exact iff_of_false (by simpa using hCrate) (by simp)

theorem anchorPath_of_startsAtCrate (h : StartsAtCrate path) (modulePath : List String)
    (modules : List (List String)) : anchorPath path modulePath modules = path := by
  obtain ⟨first, rest, hSegments⟩ := List.exists_cons_of_ne_nil (splitPath_ne_nil path)
  rw [StartsAtCrate, hSegments, List.head?_cons, Option.some.injEq] at h
  unfold anchorPath
  rw [hSegments, h]
  rfl

/-- Wherever the anchored form of a path stands, it means what the path means in its own module. -/
structure AnchoredAnywhere (path : String) (modulePath : List String)
    (modules : List (List String)) : Prop where
  meaning : ∀ modulePath' modules', pathMeaning modulePath' modules'
    (anchorPath path modulePath modules) = pathMeaning modulePath modules path
  startsAtCrate_iff : StartsAtCrate (anchorPath path modulePath modules) ↔
    ∃ full, pathMeaning modulePath modules path = .inCrate full
  again : StartsAtCrate (anchorPath path modulePath modules) → ∀ modulePath' modules',
    anchorPath (anchorPath path modulePath modules) modulePath' modules' =
      anchorPath path modulePath modules

/-- The modules may be any; that a module has an identifier for its name keeps colons out of it. -/
theorem anchorPath_anchoredAnywhere (path : String) (modulePath : List String)
    (modules : List (List String)) (hPath : isGlobalPath path = false)
    (hModule : ∀ x ∈ modulePath, ':' ∉ x.toList) : AnchoredAnywhere path modulePath modules := by
  have hAnchor : AnchorOf path (segmentsMeaning modulePath modules (splitPath path))
      (anchorPath path modulePath modules) := anchorPath_anchorOf hModule
  have hMeaning : pathMeaning modulePath modules path =
      segmentsMeaning modulePath modules (splitPath path) := by
    rw [pathMeaning, hPath, if_neg Bool.false_ne_true]
  refine ⟨fun modulePath' modules' => ?_, ?_, fun hCrate => anchorPath_of_startsAtCrate hCrate⟩
  · rw [hMeaning]
    exact hAnchor.pathMeaning hPath modulePath' modules'
  · rw [hMeaning]
    exact hAnchor.startsAtCrate_iff

/-- From `crate::api::v1` this path leaves the crate and stops at its root. -/
theorem posts_anchoredAnywhere :
    anchorPath "super::self::super::super::models::Post" ["api", "v1"] [[], ["api"], ["api", "v1"]] =
        "crate::models::Post" ∧
      isGlobalPath "super::self::super::super::models::Post" = false ∧
      (∀ x ∈ ["api", "v1"], ':' ∉ x.toList) ∧
      AnchoredAnywhere "super::self::super::super::models::Post" ["api", "v1"]
        [[], ["api"], ["api", "v1"]] := by
  have hPath : isGlobalPath "super::self::super::super::models::Post" = false := by decide +kernel
  have hModule : ∀ x ∈ ["api", "v1"], ':' ∉ x.toList := by decide
  exact ⟨by decide +kernel, hPath, hModule, anchorPath_anchoredAnywhere _ _ _ hPath hModule⟩

end TraitClient
