import TraitClient.Files.Path
import TraitClient.Proofs.AnchoredPaths
import TraitClient.Proofs.CodeRuns
import TraitClient.Proofs.FileOrder
import TraitClient.Proofs.FilePaths

/-!
# Modules and their files

A module in a file of its own has two paths, one made of the names of its directories and file, the
other of the names in the declarations that lead to it.  What is written through the module follows
the declarations, what its file holds is indexed by the names of the file.  The two agree unless a
declared name is raw or a file stands for its directory.
-/
namespace TraitClient

open Code (IsSegment identifier isGlobalPath)
open Naming (isRaw)
open Source (Item)
open Extraction (TraitIndex TraitEntry getTrait)

/-! ## Files of modules -/

/-- An item of a file, below the inline modules that it is in. -/
inductive Holds : List Item → List String → Item → Prop
  | here {items : List Item} {item : Item} (h : item ∈ items) : Holds items [] item
  | inside {items content : List Item} {name : String} {rest : List String} {item : Item}
      (hModule : .module name (some content) ∈ items) (h : Holds content rest item) :
    Holds items (name :: rest) item

/-- The directories below the source root and the stem of a file that a module may be in.  Raw names
have no mark there. -/
inductive StandardFile : List String → List String → String → Prop
  | root {stem : String} (h : stem = "lib" ∨ stem = "main") : StandardFile [] [] stem
  | file {front : List String} {last : String} :
    StandardFile (front ++ [last]) (front.map identifier) (identifier last)
  | directory {path : List String} (h : path ≠ []) :
    StandardFile path (path.map identifier) "mod"

structure IsModuleFile (root : String) (path directories : List String) (stem : String)
    (f : SourceFile) : Prop where
  standard : StandardFile path directories stem
  leads : FilePath.components f.path =
    FilePath.components root ++ (directories ++ [stem ++ ".rs"]).map .normal
  modulePath : f.modulePath = modulePathOf f.path root

/-- Whether a file is the module of its directory and not one below it. -/
def StandsForDirectory (directories : List String) (stem : String) : Prop :=
  stem = "mod" ∨ directories = [] ∧ (stem = "lib" ∨ stem = "main")

instance (directories : List String) (stem : String) :
    Decidable (StandsForDirectory directories stem) :=
  inferInstanceAs (Decidable (_ ∨ _))

/-- A file that stands for its directory has to be in that of its module. -/
def IsOwnFile (path directories : List String) (stem : String) : Prop :=
  StandsForDirectory directories stem → directories = path.map identifier

instance (path directories : List String) (stem : String) :
    Decidable (IsOwnFile path directories stem) :=
  inferInstanceAs (Decidable (_ → _))

/-! ## Names without a mark -/

theorem isIdentText_identifier {name : String} (h : IsSegment name) :
    Text.isIdentText (identifier name).toList = true := by
  cases hRaw : isRaw name with
  | true =>
    obtain ⟨raw, hText⟩ := Code.isRaw_eq_true_iff.mp hRaw
    have hToken := h.token
    rw [Code.isToken_of_raw hText] at hToken
    simp only [identifier, hText, String.toList_ofList]
    exact (Bool.and_eq_true_iff.mp hToken).1
  | false =>
    have hToken := h.token
    rw [Code.isToken_of_not_raw hRaw] at hToken
    unfold identifier
    split
    · rename_i rest hText
      rw [Code.isRaw_eq_true_iff.mpr ⟨rest, hText⟩] at hRaw
      cases hRaw
    · exact hToken

theorem identifier_ne_empty {name : String} (h : IsSegment name) : identifier name ≠ "" := by
  intro hEmpty
  have hText := isIdentText_identifier h
  rw [hEmpty] at hText
  cases hText

theorem identifier_eq_self_iff {name : String} : identifier name = name ↔ isRaw name = false := by
  constructor
  · intro hSame
    refine Bool.eq_false_iff.mpr fun hRaw => ?_
    obtain ⟨raw, hText⟩ := Code.isRaw_eq_true_iff.mp hRaw
    have hLength : raw = name.toList := by
      have hDropped := congrArg String.toList hSame
      simpa only [identifier, hText, String.toList_ofList] using hDropped
    have hCounts := congrArg List.length hLength
    rw [hText, List.length_cons, List.length_cons] at hCounts
    omega
  · intro hRaw
    unfold identifier
    split
    · rename_i rest hText
      rw [Code.isRaw_eq_true_iff.mpr ⟨rest, hText⟩] at hRaw
      cases hRaw
    · rfl

theorem identifier_identifier {name : String} (h : IsSegment name) :
    identifier (identifier name) = identifier name :=
  identifier_eq_self_iff.mpr (Code.isRaw_of_isIdentText (isIdentText_identifier h))

theorem map_identifier_eq_self_iff {names : List String} :
    names.map identifier = names ↔ ∀ name ∈ names, isRaw name = false := by
  have hSelf : names.map identifier = names ↔ names.map identifier = names.map id := by
    rw [List.map_id]
  rw [hSelf, List.map_inj_left]
  simp only [id, identifier_eq_self_iff]

/-! ## Module paths of files -/

theorem stripPrefix?_append (base rest : List PathComponent) :
    FilePath.stripPrefix? (base ++ rest) base = some rest := by
  induction base with
  | nil => cases rest <;> rfl
  | cons first base ih => rw [List.cons_append, FilePath.stripPrefix?, if_pos rfl, ih]

theorem filterMap_normalName? (names : List String) :
    (names.map PathComponent.normal).filterMap FilePath.normalName? = names := by
  rw [List.filterMap_map]
  exact List.filterMap_some

theorem modulePathOf_below {path root : String} {directories : List String} {stem : String}
    (hStem : stem ≠ "") (h : FilePath.components path =
      FilePath.components root ++ (directories ++ [stem ++ ".rs"]).map .normal) :
    modulePathOf path root =
      if StandsForDirectory directories stem then directories else directories ++ [stem] := by
  have hExtension : FilePath.splitExtension (stem ++ ".rs") = (stem, some "rs") := by
    have hText : stem ++ ".rs" = stem ++ "." ++ "rs" := by rw [String.append_assoc]; rfl
    rw [hText]
    exact FilePath.splitExtension_append hStem (by decide)
  rw [modulePathOf, h, stripPrefix?_append, List.map_append, List.map_singleton]
  simp only [List.dropLast_concat, List.getLast?_concat, filterMap_normalName?, hExtension]
  refine if_congr ?_ rfl rfl
  simp only [StandsForDirectory, Bool.or_eq_true, Bool.and_eq_true, beq_iff_eq, List.isEmpty_iff]

namespace IsModuleFile

variable {root stem : String} {path directories : List String} {f : SourceFile}

theorem stem_ne_empty (h : IsModuleFile root path directories stem f)
    (hNames : ∀ name ∈ path, IsSegment name) : stem ≠ "" := by
  cases h.standard with
  | root hStem => rcases hStem with rfl | rfl <;> decide
  | @file front last => exact identifier_ne_empty (hNames last (by simp))
  | directory => decide

theorem modulePath_eq (h : IsModuleFile root path directories stem f)
    (hNames : ∀ name ∈ path, IsSegment name) : f.modulePath =
      if StandsForDirectory directories stem then directories else directories ++ [stem] := by
  rw [h.modulePath, modulePathOf_below (h.stem_ne_empty hNames) h.leads]

theorem modulePath_of_own (h : IsModuleFile root path directories stem f)
    (hNames : ∀ name ∈ path, IsSegment name) (hOwn : IsOwnFile path directories stem) :
    f.modulePath = path.map identifier := by
  rw [h.modulePath_eq hNames]
  split
  · rename_i hStands
    exact hOwn hStands
  · rename_i hBelow
    cases h.standard with
    | root hStem => exact absurd (.inr ⟨rfl, hStem⟩) hBelow
    | file => simp
    | directory => exact absurd (.inl rfl) hBelow

theorem modulePath_of_not_own (h : IsModuleFile root path directories stem f)
    (hNames : ∀ name ∈ path, IsSegment name) (hOther : ¬IsOwnFile path directories stem) :
    ∃ front last, path = front ++ [last] ∧ f.modulePath = front.map identifier ∧
      StandsForDirectory (front.map identifier) (identifier last) := by
  obtain ⟨hStands, hDirectories⟩ := Classical.not_imp.mp hOther
  rw [h.modulePath_eq hNames, if_pos hStands]
  cases h.standard with
  | root => exact absurd rfl hDirectories
  | @file front last => exact ⟨front, last, rfl, rfl, hStands⟩
  | directory => exact absurd rfl hDirectories

theorem length_modulePath (h : IsModuleFile root path directories stem f)
    (hNames : ∀ name ∈ path, IsSegment name) :
    IsOwnFile path directories stem ∧ f.modulePath.length = path.length ∨
      ¬IsOwnFile path directories stem ∧ f.modulePath.length + 1 = path.length := by
  by_cases hOwn : IsOwnFile path directories stem
  · rw [h.modulePath_of_own hNames hOwn, List.length_map]
    exact .inl ⟨hOwn, rfl⟩
  · obtain ⟨front, last, rfl, hFile, _⟩ := h.modulePath_of_not_own hNames hOwn
    rw [hFile, List.length_map, List.length_append, List.length_singleton]
    exact .inr ⟨hOwn, rfl⟩

end IsModuleFile

theorem not_isSegment_mod : ¬IsSegment "mod" := fun h =>
  h.word.elim (fun hPlain => absurd hPlain (by decide)) fun hWord => absurd hWord (by decide)

section

variable {root stem stem' x : String} {path inner directories directories' : List String}
  {f f' : SourceFile}

/-- Where neither file is that of its own module, the name `x` of the second one would have to come
from a name before it.  So it would not be raw, and its file not `mod.rs`. -/
theorem modulePath_ne_of_not_own (hParent : IsModuleFile root path directories stem f)
    (hChild : IsModuleFile root (path ++ inner ++ [x]) directories' stem' f')
    (hNames : ∀ name ∈ path ++ inner ++ [x], IsSegment name)
    (hOther : ¬IsOwnFile path directories stem)
    (hOther' : ¬IsOwnFile (path ++ inner ++ [x]) directories' stem') :
    f'.modulePath ≠ f.modulePath ++ inner ++ [x] := by
  intro hSame
  obtain ⟨front, last, rfl, hFile, _⟩ :=
    hParent.modulePath_of_not_own (fun name hName => hNames name (by simp [hName])) hOther
  obtain ⟨front', last', hSplit, hFile', hStands⟩ := hChild.modulePath_of_not_own hNames hOther'
  obtain ⟨rfl, hLast⟩ := List.append_inj' hSplit rfl
  obtain rfl := List.singleton_inj.mp hLast
  rw [hFile', hFile, List.append_assoc, List.append_assoc, List.map_append] at hSame
  have hShifted := List.append_cancel_left hSame
  have hMem : x ∈ ([last] ++ inner).map identifier := hShifted ▸ by simp
  obtain ⟨name, hName, hText⟩ := List.mem_map.mp hMem
  have hPlain : identifier x = x := by
    rw [← hText]
    refine identifier_identifier (hNames name ?_)
    rcases List.mem_append.mp hName with hName | hName
    · simp [List.mem_singleton.mp hName]
    · simp [hName]
  rcases hStands with hMod | ⟨hEmpty, _⟩
  · have hSegment := hNames x (by simp)
    rw [← hPlain, hMod] at hSegment
    exact absurd hSegment not_isSegment_mod
  · simp at hEmpty

/-- The two paths of a declared module agree exactly if both files are those of their own modules and
no name of the declaration is raw. -/
theorem modulePath_agrees_iff (hParent : IsModuleFile root path directories stem f)
    (hChild : IsModuleFile root (path ++ inner ++ [x]) directories' stem' f')
    (hNames : ∀ name ∈ path ++ inner ++ [x], IsSegment name) :
    f'.modulePath = f.modulePath ++ inner ++ [x] ↔
      IsOwnFile path directories stem ∧ IsOwnFile (path ++ inner ++ [x]) directories' stem' ∧
        ∀ name ∈ inner ++ [x], isRaw name = false := by
  have hPath : ∀ name ∈ path, IsSegment name := fun name hName => hNames name (by simp [hName])
  rw [← map_identifier_eq_self_iff]
  constructor
  · intro hSame
    have hLengths := congrArg List.length hSame
    simp only [List.length_append, List.length_singleton] at hLengths
    -- A file that is not that of its own module is one segment short, so that it is both or neither.
    rcases hParent.length_modulePath hPath with ⟨hOwn, hLength⟩ | ⟨hOther, hLength⟩ <;>
      rcases hChild.length_modulePath hNames with ⟨hOwn', hLength'⟩ | ⟨hOther', hLength'⟩ <;>
      simp only [List.length_append, List.length_singleton] at hLength'
    · refine ⟨hOwn, hOwn', ?_⟩
      rw [hChild.modulePath_of_own hNames hOwn', hParent.modulePath_of_own hPath hOwn,
        List.append_assoc, List.append_assoc, List.map_append] at hSame
      exact List.append_cancel_left hSame
    · omega
    · omega
    · exact absurd hSame (modulePath_ne_of_not_own hParent hChild hNames hOther hOther')
  · rintro ⟨hOwn, hOwn', hUnmarked⟩
    rw [hChild.modulePath_of_own hNames hOwn', hParent.modulePath_of_own hPath hOwn,
      List.append_assoc, List.map_append, hUnmarked, List.append_assoc]

end

/-! ## What is indexed from a file -/

namespace Extraction.TraitIndex

theorem ofItemList_eq (file : String) (modulePath : List String) (imports : Imports)
    (items : List Item) : ofItemList file modulePath imports items =
      ⟨items.flatMap fun item => (ofItem file modulePath imports item).traits,
        items.flatMap fun item => (ofItem file modulePath imports item).modules⟩ := by
  induction items with
  | nil => rfl
  | cons item items ih =>
    rw [ofItemList, ih]
    rfl

theorem mem_ofFiles {files : List SourceFile} {f : SourceFile} (h : f ∈ files) :
    (∀ t ∈ (ofFile f).traits, t ∈ (ofFiles files).traits) ∧
      ∀ path ∈ (ofFile f).modules, path ∈ (ofFiles files).modules := by
  rw [ofFiles_eq]
  exact ⟨fun t ht => List.mem_flatMap.mpr ⟨f, h, ht⟩,
    fun path hPath => List.mem_flatMap.mpr ⟨f, h, hPath⟩⟩

end Extraction.TraitIndex

open Extraction.TraitIndex (ofItem ofItemList ofFile ofFiles)

theorem Holds.indexed {items : List Item} {rest : List String} {item : Item}
    (h : Holds items rest item) (file : String) (modulePath : List String) (imports : Imports) :
    ∃ scope, (∀ t ∈ (ofItem file (modulePath ++ rest) scope item).traits,
        t ∈ (ofItemList file modulePath imports items).traits) ∧
      ∀ path ∈ (ofItem file (modulePath ++ rest) scope item).modules,
        path ∈ (ofItemList file modulePath imports items).modules := by
  induction h generalizing modulePath imports with
  | here h =>
    rw [Extraction.TraitIndex.ofItemList_eq, List.append_nil]
    exact ⟨imports, fun t ht => List.mem_flatMap.mpr ⟨_, h, ht⟩,
      fun path hPath => List.mem_flatMap.mpr ⟨_, h, hPath⟩⟩
  | @inside items content name rest item hModule _ ih =>
    obtain ⟨scope, hTraits, hModules⟩ := ih (modulePath ++ [name]) (.ofItems content)
    rw [List.append_assoc, List.singleton_append] at hTraits hModules
    rw [Extraction.TraitIndex.ofItemList_eq]
    refine ⟨scope, fun t ht => List.mem_flatMap.mpr ⟨_, hModule, ?_⟩,
      fun path hPath => List.mem_flatMap.mpr ⟨_, hModule, ?_⟩⟩
    · exact hTraits t ht
    · exact List.mem_append_right _ (hModules path hPath)

section

variable {files : List SourceFile} {f : SourceFile} {rest : List String}

theorem Holds.trait_indexed {d : Source.TraitDeclaration} (h : Holds f.items rest (.trait d))
    (hFile : f ∈ files) :
    ∃ t ∈ (ofFiles files).traits, t.cratePath = cratePath (f.modulePath ++ rest) d.name := by
  obtain ⟨scope, hTraits, _⟩ := h.indexed f.path f.modulePath (.ofItems f.items)
  exact ⟨⟨d, f.path, f.modulePath ++ rest, scope⟩,
    (Extraction.TraitIndex.mem_ofFiles hFile).1 _ (hTraits _ List.mem_cons_self), rfl⟩

theorem Holds.module_indexed {name : String} {content : Option (List Item)}
    (h : Holds f.items rest (.module name content)) (hFile : f ∈ files) :
    f.modulePath ++ rest ++ [name] ∈ (ofFiles files).modules := by
  obtain ⟨scope, _, hModules⟩ := h.indexed f.path f.modulePath (.ofItems f.items)
  refine (Extraction.TraitIndex.mem_ofFiles hFile).2 _ (List.mem_append_right _ (hModules _ ?_))
  cases content <;> exact List.mem_cons_self

end

/-! ## What is found through a module -/

theorem anchorPath_of_inCrate {path : String} {modulePath full : List String}
    {modules : List (List String)} (hModule : ∀ x ∈ modulePath, ':' ∉ x.toList)
    (hPath : isGlobalPath path = false)
    (h : pathMeaning modulePath modules path = .inCrate full) :
    anchorPath path modulePath modules = joinPath ("crate" :: full) := by
  have hAnchor : AnchorOf path (segmentsMeaning modulePath modules (splitPath path))
      (anchorPath path modulePath modules) := anchorPath_anchorOf hModule
  rw [pathMeaning, hPath, if_neg Bool.false_ne_true] at h
  rw [h] at hAnchor
  generalize anchorPath path modulePath modules = anchored at hAnchor
  cases hAnchor
  rfl

/-- What is promised of paths that lead to a module: by them the traits and modules in the file are
found, and types are respelled by the path that the file is indexed under. -/
structure ReachesFile (index : TraitIndex) (f : SourceFile) (modulePath : List String) : Prop where
  modules : ∀ (rest : List String) (name : String) (content : Option (List Item)),
    Holds f.items rest (.module name content) → modulePath ++ rest ++ [name] ∈ index.modules
  bounds : ∀ (rest : List String) (d : Source.TraitDeclaration) (e : TraitEntry)
    (segments : List String) (earlier later : List String) (candidate : String),
    Holds f.items rest (.trait d) → (∀ s ∈ e.modulePath, ':' ∉ s.toList) →
    e.imports.candidates segments false = earlier ++ candidate :: later →
    (∀ c ∈ earlier, index.find? (anchorPath c e.modulePath index.modules) = none) →
    isGlobalPath candidate = false →
    pathMeaning e.modulePath index.modules candidate = .inCrate (modulePath ++ rest ++ [d.name]) →
    ∃ t, Extraction.supertrait? index e ⟨false, segments⟩ = some t ∧
      t.cratePath = cratePath (f.modulePath ++ rest) d.name
  types : ∀ (rest : List String) (scope : List String) (t : TypeRef),
    (∀ s ∈ scope, ':' ∉ s.toList) → t.qualifiedName ≠ TypeRef.sliceName → t.path ≠ "()" →
    isPrelude t.path t.qualifiedName = false → isGlobalPath t.qualifiedName = false →
    pathMeaning scope index.modules t.qualifiedName = .inCrate (modulePath ++ rest) →
    (t.anchored scope index.modules).path = crateLocal f.modulePath rest

theorem reachesFile_of_mem {files : List SourceFile} {f : SourceFile} (hFile : f ∈ files) :
    ReachesFile (ofFiles files) f f.modulePath := by
  constructor
  · intro rest name content hHolds
    exact hHolds.module_indexed hFile
  · intro rest d e segments earlier later candidate hHolds hModule hCandidates hEarlier hPath hMeaning
    obtain ⟨listed, hListed, hCrate⟩ := hHolds.trait_indexed hFile
    have hTarget : anchorPath candidate e.modulePath (ofFiles files).modules = listed.cratePath := by
      rw [anchorPath_of_inCrate hModule hPath hMeaning, hCrate]
      rfl
    obtain ⟨t, hFound⟩ : ∃ t, (ofFiles files).find? listed.cratePath = some t :=
      Option.isSome_iff_exists.mp (List.find?_isSome.mpr ⟨listed, hListed, beq_self_eq_true _⟩)
    have hSame : t.cratePath = listed.cratePath := beq_iff_eq.mp
      (List.find?_some (p := fun e : TraitEntry => e.cratePath == listed.cratePath) hFound)
    refine ⟨t, ?_, hSame.trans hCrate⟩
    have hNone : earlier.findSome? (fun c => (ofFiles files).find?
        (anchorPath c e.modulePath (ofFiles files).modules)) = none :=
      List.findSome?_eq_none_iff.mpr hEarlier
    rw [Extraction.supertrait?, if_neg Bool.false_ne_true, hCandidates, List.findSome?_append, hNone,
      Option.none_or, List.findSome?_cons, hTarget, hFound]
  · intro rest scope t hScope hSlice hUnit hPrelude hPath hMeaning
    have hAnchored : (t.anchored scope (ofFiles files).modules).path =
        anchorPath t.qualifiedName scope (ofFiles files).modules := by
      obtain ⟨qualifiedName, path, arguments, nullable, byRef, lifetime⟩ := t
      have hSlice : (qualifiedName == TypeRef.sliceName) = false := beq_false_of_ne hSlice
      have hUnit : (path == "()") = false := beq_false_of_ne hUnit
      have hPrelude : isPrelude path qualifiedName = false := hPrelude
      simp only [TypeRef.anchored, hSlice, hUnit, hPrelude, Bool.or_self, Bool.false_eq_true,
        if_false]
    rw [hAnchored, anchorPath_of_inCrate hScope hPath hMeaning]
    rfl

section

variable {root stem stem' x : String} {path inner directories directories' : List String}
  {f f' : SourceFile}

/-- A path that goes down to a declared module means what is below the path of the declaration.  Where
its file has the same path, which is so for two files of their own modules and names that are not
raw, the contents of the file are reached. -/
theorem declaredModule_agrees (hParent : IsModuleFile root path directories stem f)
    (hDeclared : Holds f.items inner (.module x none))
    (hChild : IsModuleFile root (path ++ inner ++ [x]) directories' stem' f')
    (hNames : ∀ name ∈ path ++ inner ++ [x], IsSegment name) :
    (∀ files, f ∈ files → f.modulePath ++ inner ++ [x] ∈ (ofFiles files).modules ∧
      (x ∉ moduleWords → ∀ second more,
        segmentsMeaning (f.modulePath ++ inner) (ofFiles files).modules (x :: second :: more) =
          .inCrate (f.modulePath ++ inner ++ [x] ++ second :: more))) ∧
    (modulePathOf f'.path root = f.modulePath ++ inner ++ [x] ↔
      IsOwnFile path directories stem ∧ IsOwnFile (path ++ inner ++ [x]) directories' stem' ∧
        ∀ name ∈ inner ++ [x], isRaw name = false) ∧
    (modulePathOf f'.path root = f.modulePath ++ inner ++ [x] →
      ∀ files, f' ∈ files → ReachesFile (ofFiles files) f' (f.modulePath ++ inner ++ [x])) := by
  refine ⟨fun files hFile => ?_, ?_, fun hSame files hFile => ?_⟩
  · have hModule := hDeclared.module_indexed hFile
    refine ⟨hModule, fun hWord second more => ?_⟩
    rw [segmentsMeaning_below hWord, if_pos hModule, List.append_assoc _ [x], List.singleton_append]
  · rw [← hChild.modulePath]
    exact modulePath_agrees_iff hParent hChild hNames
  · rw [← hSame, ← hChild.modulePath]
    exact reachesFile_of_mem hFile

end

/-- `src/api.rs` with `pub mod v1 { pub mod posts; }`. -/
def apiFile : SourceFile :=
  ⟨"src/api.rs", ["api"], [.module "v1" (some [.module "posts" none])]⟩

def postsFile : SourceFile :=
  ⟨"src/api/v1/posts.rs", ["api", "v1", "posts"], [.trait (getTrait "Base" [] ["ping"])]⟩

theorem postsFile_agrees :
    IsModuleFile "src" ["api"] [] "api" apiFile ∧
      Holds apiFile.items ["v1"] (.module "posts" none) ∧
      IsModuleFile "src" ["api", "v1", "posts"] ["api", "v1"] "posts" postsFile ∧
      modulePathOf postsFile.path "src" = ["api", "v1", "posts"] ∧
      ReachesFile (ofFiles [apiFile, postsFile]) postsFile ["api", "v1", "posts"] := by
  have hParent : IsModuleFile "src" ["api"] [] "api" apiFile :=
    ⟨@StandardFile.file [] "api", by decide, by decide⟩
  have hDeclared : Holds apiFile.items ["v1"] (.module "posts" none) :=
    .inside List.mem_cons_self (.here List.mem_cons_self)
  have hChild : IsModuleFile "src" ["api", "v1", "posts"] ["api", "v1"] "posts" postsFile :=
    ⟨@StandardFile.file ["api", "v1"] "posts", by decide +kernel, by decide +kernel⟩
  have hNames : ∀ name ∈ ["api", "v1", "posts"], IsSegment name := by
    have hSegments : ["api", "v1", "posts"].all Source.isSegment = true := by decide
    exact fun name hName => Source.isSegment_iff.mp (List.all_eq_true.mp hSegments name hName)
  obtain ⟨_, hAgrees, hReaches⟩ := declaredModule_agrees hParent hDeclared hChild hNames
  have hSame := hAgrees.mpr ⟨by decide, by decide, by decide⟩
  exact ⟨hParent, hDeclared, hChild, hSame, hReaches hSame _ (by simp)⟩

/-- A service that extends `r#type::Base`. -/
def rawDeclaration : Source.TraitDeclaration :=
  { getTrait "DocsApi" [] ["docs"] with
    supertraits := [⟨false, [.mk "r#type" .none, .mk "Base" .none]⟩] }

/-- `src/lib.rs` with `mod r#type;` and that service. -/
def rawFile : SourceFile :=
  ⟨"src/lib.rs", [], [.module "r#type" none, .trait rawDeclaration]⟩

def typeFile : SourceFile := ⟨"src/type.rs", ["type"], [.trait (getTrait "Base" [] ["ping"])]⟩

def rawService : TraitEntry where
  declaration := rawDeclaration
  file := "src/lib.rs"
  modulePath := []
  imports := .ofItems rawFile.items

/-- The file of a module with a raw name is indexed under another name, where no path leads. -/
theorem typeFile_disagrees :
    IsModuleFile "src" [] [] "lib" rawFile ∧ Holds rawFile.items [] (.module "r#type" none) ∧
      IsModuleFile "src" ["r#type"] [] "type" typeFile ∧
      modulePathOf typeFile.path "src" = ["type"] ∧
      (ofFiles [rawFile, typeFile]).modules.contains ["r#type"] = true ∧
      Extraction.supertrait? (ofFiles [rawFile, typeFile]) rawService ⟨false, ["r#type", "Base"]⟩ =
        none ∧
      ¬ReachesFile (ofFiles [rawFile, typeFile]) typeFile ["r#type"] := by
  have hNotFound : Extraction.supertrait? (ofFiles [rawFile, typeFile]) rawService
      ⟨false, ["r#type", "Base"]⟩ = none := by decide +kernel
  refine ⟨⟨.root (.inl rfl), by decide, by decide⟩, .here List.mem_cons_self,
    ⟨@StandardFile.file [] "r#type", by decide +kernel, by decide +kernel⟩, by decide +kernel,
    by decide +kernel, hNotFound, fun hReaches => ?_⟩
  obtain ⟨t, hFound, _⟩ := hReaches.bounds [] (getTrait "Base" [] ["ping"]) rawService
    ["r#type", "Base"] [] [] "r#type::Base" (.here List.mem_cons_self) (by decide) (by decide +kernel)
    (by simp) (by decide +kernel) (by decide +kernel)
  rw [hNotFound] at hFound
  cases hFound

end TraitClient
