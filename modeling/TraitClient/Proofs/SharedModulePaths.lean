import TraitClient.Proofs.ModuleFiles

/-!
# Files with one module path

A module path tells source files below a root apart, but for those among which a module may choose:
`lib.rs`, `main.rs` and `mod.rs` for the root, and `x.rs` and `x/mod.rs` for a module `x`.  Where the
file `x.rs` stands for its directory, it is no alternative to `x/mod.rs`.
-/
namespace TraitClient

/-- A source file below a root, with the names that lead to it from there. -/
structure IsSourceFile (root path : String) (names : List String) : Prop where
  leads : FilePath.components path = FilePath.components root ++ names.map .normal
  below : names ≠ []
  extension : FilePath.extension? path = some "rs"

/-- The files of which one is the root of a crate. -/
def rootFiles : List String := ["lib.rs", "main.rs", "mod.rs"]

/-- Source files that are the same or may both be the file of one module. -/
inductive SameModule : List String → List String → Prop
  | refl (names : List String) : SameModule names names
  | root {file file' : String} (h : file ∈ rootFiles) (h' : file' ∈ rootFiles) :
    SameModule [file] [file']
  | directory (directories : List String) {name : String}
      (h : ¬StandsForDirectory directories name) :
    SameModule (directories ++ [name ++ ".rs"]) (directories ++ [name, "mod.rs"])
  | file (directories : List String) {name : String} (h : ¬StandsForDirectory directories name) :
    SameModule (directories ++ [name, "mod.rs"]) (directories ++ [name ++ ".rs"])

variable {root path path' stem stem' : String} {names names' directories directories' : List String}

theorem rs_injective {a b : String} (h : a ++ ".rs" = b ++ ".rs") : a = b := by
  have hText := congrArg String.toList h
  rw [String.toList_append, String.toList_append] at hText
  exact String.toList_injective (List.append_cancel_right hText)

theorem rs_mem_rootFiles_iff :
    stem ++ ".rs" ∈ rootFiles ↔ StandsForDirectory [] stem := by
  have hSame (name : String) : stem ++ ".rs" = name ++ ".rs" ↔ stem = name :=
    ⟨rs_injective, congrArg (· ++ ".rs")⟩
  have hLib := hSame "lib"
  have hMain := hSame "main"
  have hMod := hSame "mod"
  simp only [rootFiles, List.mem_cons, List.not_mem_nil, or_false, StandsForDirectory, true_and]
  rw [show ("lib.rs" : String) = "lib" ++ ".rs" from rfl, hLib,
    show ("main.rs" : String) = "main" ++ ".rs" from rfl, hMain,
    show ("mod.rs" : String) = "mod" ++ ".rs" from rfl, hMod]
  tauto

namespace IsSourceFile

theorem exists_stem (h : IsSourceFile root path names) :
    ∃ directories stem, stem ≠ "" ∧ names = directories ++ [stem ++ ".rs"] := by
  obtain ⟨stem, hStem, hLast⟩ := FilePath.exists_name_of_extension? h.extension
  refine ⟨names.dropLast, stem, hStem, ?_⟩
  rw [h.leads, ← List.dropLast_concat_getLast h.below, List.map_append, List.map_singleton,
    ← List.append_assoc, List.getLast?_concat] at hLast
  have hName : names.getLast h.below = stem ++ "." ++ "rs" := by
    injection hLast with hLast
    injection hLast
  have hText : stem ++ "." ++ "rs" = stem ++ ".rs" := by rw [String.append_assoc]; rfl
  rw [← hText, ← hName, List.dropLast_concat_getLast]

theorem modulePath_eq (h : IsSourceFile root path names)
    (hNames : names = directories ++ [stem ++ ".rs"]) : modulePathOf path root =
      if StandsForDirectory directories stem then directories else directories ++ [stem] := by
  obtain ⟨directories', stem', hStem, hNames'⟩ := h.exists_stem
  obtain ⟨rfl, hLast⟩ := List.append_inj' (hNames.symm.trans hNames') rfl
  obtain rfl := rs_injective (List.singleton_inj.mp hLast)
  exact modulePathOf_below hStem (by rw [h.leads, hNames])

end IsSourceFile

theorem sameModule_of_both_stand (h : StandsForDirectory directories stem)
    (h' : StandsForDirectory directories stem') :
    SameModule (directories ++ [stem ++ ".rs"]) (directories ++ [stem' ++ ".rs"]) := by
  by_cases hRoot : directories = []
  · subst hRoot
    exact .root (rs_mem_rootFiles_iff.mpr h) (rs_mem_rootFiles_iff.mpr h')
  · have hMod : stem = "mod" := h.resolve_right fun hOther => hRoot hOther.1
    have hMod' : stem' = "mod" := h'.resolve_right fun hOther => hRoot hOther.1
    rw [hMod, hMod']
    exact .refl _

theorem mod_of_stands {front : List String} {last : String}
    (h : StandsForDirectory (front ++ [last]) stem) : stem = "mod" :=
  h.resolve_right fun hRoot => absurd hRoot.1 (by simp)

theorem sameModule_of_modulePathOf (h : IsSourceFile root path names)
    (h' : IsSourceFile root path' names') (hSame : modulePathOf path root = modulePathOf path' root) :
    SameModule names names' := by
  obtain ⟨directories, stem, -, hNames⟩ := h.exists_stem
  obtain ⟨directories', stem', -, hNames'⟩ := h'.exists_stem
  rw [h.modulePath_eq hNames, h'.modulePath_eq hNames'] at hSame
  rw [hNames, hNames']
  by_cases hStands : StandsForDirectory directories stem
  · rw [if_pos hStands] at hSame
    by_cases hStands' : StandsForDirectory directories' stem'
    · rw [if_pos hStands'] at hSame
      subst hSame
      exact sameModule_of_both_stand hStands hStands'
    · rw [if_neg hStands'] at hSame
      subst hSame
      rw [mod_of_stands hStands, List.append_assoc]
      exact .file directories' hStands'
  · rw [if_neg hStands] at hSame
    by_cases hStands' : StandsForDirectory directories' stem'
    · rw [if_pos hStands'] at hSame
      subst hSame
      rw [mod_of_stands hStands', List.append_assoc]
      exact .directory directories hStands
    · rw [if_neg hStands'] at hSame
      obtain ⟨rfl, hLast⟩ := List.append_inj' hSame rfl
      obtain rfl := List.singleton_inj.mp hLast
      exact .refl _

theorem modulePathOf_eq_of_alternatives (h : IsSourceFile root path (directories ++ [stem ++ ".rs"]))
    (h' : IsSourceFile root path' (directories ++ [stem, "mod.rs"]))
    (hOwn : ¬StandsForDirectory directories stem) : modulePathOf path root = modulePathOf path' root := by
  have hNames' : directories ++ [stem, "mod.rs"] = directories ++ [stem] ++ ["mod" ++ ".rs"] := by
    rw [List.append_assoc]
    rfl
  rw [h.modulePath_eq rfl, h'.modulePath_eq hNames', if_neg hOwn, if_pos (.inl rfl)]

theorem modulePathOf_eq_of_sameModule (h : IsSourceFile root path names)
    (h' : IsSourceFile root path' names') (hSame : SameModule names names') :
    modulePathOf path root = modulePathOf path' root := by
  cases hSame with
  | refl =>
    obtain ⟨directories, stem, -, hNames⟩ := h.exists_stem
    rw [h.modulePath_eq hNames, h'.modulePath_eq hNames]
  | root hFile hFile' =>
    have hRoot {path file : String} (h : IsSourceFile root path [file]) (hFile : file ∈ rootFiles) :
        modulePathOf path root = [] := by
      obtain ⟨directories, stem, -, hNames⟩ := h.exists_stem
      have hAlone : [] ++ [file] = directories ++ [stem ++ ".rs"] := hNames
      obtain ⟨rfl, hLast⟩ := List.append_inj' hAlone rfl
      rw [List.singleton_inj.mp hLast, rs_mem_rootFiles_iff] at hFile
      rw [h.modulePath_eq hNames, if_pos hFile]
    rw [hRoot h hFile, hRoot h' hFile']
  | directory directories hOwn => exact modulePathOf_eq_of_alternatives h h' hOwn
  | file directories hOwn => exact (modulePathOf_eq_of_alternatives h' h hOwn).symm

/-! ## Special names elsewhere -/

theorem SameModule.of_nested (h : SameModule (directories ++ [stem ++ ".rs"]) names')
    (hNested : directories ≠ []) (hStem : stem ≠ "mod") :
    names' = directories ++ [stem ++ ".rs"] ∨ names' = directories ++ [stem, "mod.rs"] := by
  generalize hNames : directories ++ [stem ++ ".rs"] = names at h
  cases h with
  | refl => exact .inl rfl
  | root =>
    have hLength := congrArg List.length hNames
    exact absurd (by simpa using hLength) hNested
  | directory directories' hOwn =>
    obtain ⟨rfl, hLast⟩ := List.append_inj' hNames rfl
    rw [rs_injective (List.singleton_inj.mp hLast)]
    exact .inr rfl
  | @file directories' name hOwn =>
    have hSplit : directories' ++ [name, "mod.rs"] = directories' ++ [name] ++ ["mod" ++ ".rs"] := by
      rw [List.append_assoc]
      rfl
    obtain ⟨-, hLast⟩ := List.append_inj' (hNames.trans hSplit) rfl
    exact absurd (rs_injective (List.singleton_inj.mp hLast)) hStem

theorem SameModule.of_special (h : SameModule (directories ++ [stem, "mod.rs"]) names')
    (hSpecial : StandsForDirectory directories stem) : names' = directories ++ [stem, "mod.rs"] := by
  generalize hNames : directories ++ [stem, "mod.rs"] = names at h
  cases h with
  | refl => rfl
  | root =>
    have hLength := congrArg List.length hNames
    simp at hLength
  | directory directories' hOwn =>
    have hSplit : directories ++ [stem, "mod.rs"] = directories ++ [stem] ++ ["mod" ++ ".rs"] := by
      rw [List.append_assoc]
      rfl
    obtain ⟨-, hLast⟩ := List.append_inj' (hSplit.symm.trans hNames) rfl
    exact absurd (.inl (rs_injective (List.singleton_inj.mp hLast)).symm) hOwn
  | file directories' hOwn =>
    obtain ⟨rfl, hLast⟩ := List.append_inj' hNames rfl
    obtain rfl := (List.cons.inj hLast).1
    exact absurd hSpecial hOwn

/-- Source files below a root share their module path exactly if they are the same file, are all
files of the root, or are `x.rs` and `x/mod.rs` in one directory, the former not standing for it.  So
`lib.rs` and `main.rs` below the root have no more alternatives than other files, and directories
called `mod`, or `lib` and `main` in the root, have none. -/
theorem modulePathOf_tellsApart (h : IsSourceFile root path names)
    (h' : IsSourceFile root path' names') :
    (modulePathOf path root = modulePathOf path' root ↔ SameModule names names') ∧
      (modulePathOf path root = modulePathOf path' root → ∀ directories stem,
        (names = directories ++ [stem ++ ".rs"] → directories ≠ [] → stem ∈ ["lib", "main"] →
          names' = names ∨ names' = directories ++ [stem, "mod.rs"]) ∧
        (names = directories ++ [stem, "mod.rs"] → StandsForDirectory directories stem →
          names' = names)) := by
  refine ⟨⟨sameModule_of_modulePathOf h h', modulePathOf_eq_of_sameModule h h'⟩, ?_⟩
  intro hSame directories stem
  have hModule := sameModule_of_modulePathOf h h' hSame
  refine ⟨?_, ?_⟩
  · rintro rfl hNested hStem
    refine hModule.of_nested hNested ?_
    rintro rfl
    exact absurd hStem (by decide)
  · rintro rfl hSpecial
    exact hModule.of_special hSpecial

/-- A `main.rs` below the root may be `main/mod.rs` as well, and is not the `main.rs` of the root. -/
theorem toolsMain_toldApart :
    IsSourceFile "src" "src/tools/main.rs" ["tools", "main.rs"] ∧
      IsSourceFile "src" "src//tools/main/mod.rs" ["tools", "main", "mod.rs"] ∧
      IsSourceFile "src" "src/main.rs" ["main.rs"] ∧
      modulePathOf "src/tools/main.rs" "src" = modulePathOf "src//tools/main/mod.rs" "src" ∧
      modulePathOf "src/tools/main.rs" "src" ≠ modulePathOf "src/main.rs" "src" := by
  have hTools : IsSourceFile "src" "src/tools/main.rs" ["tools", "main.rs"] :=
    ⟨by decide, by decide, by decide⟩
  have hDirectory : IsSourceFile "src" "src//tools/main/mod.rs" ["tools", "main", "mod.rs"] :=
    ⟨by decide, by decide, by decide⟩
  have hMain : IsSourceFile "src" "src/main.rs" ["main.rs"] := ⟨by decide, by decide, by decide⟩
  have hAlternatives : SameModule ["tools", "main.rs"] ["tools", "main", "mod.rs"] :=
    @SameModule.directory ["tools"] "main" (by decide)
  refine ⟨hTools, hDirectory, hMain, (modulePathOf_tellsApart hTools hDirectory).1.mpr hAlternatives,
    fun hSame => ?_⟩
  have hNested := ((modulePathOf_tellsApart hTools hMain).2 hSame ["tools"] "main").1
  exact absurd (hNested rfl (by decide) (by decide)) (by decide)

end TraitClient
