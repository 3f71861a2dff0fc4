import TraitClient.Proofs.FileChanges
import TraitClient.Proofs.Identifiers
import TraitClient.Proofs.RunModes

/-!
# Stored units

A folder that was empty holds, after a run, the last unit of each place and the folders above it.
Units of one run keep out of each other's way unless their traits are in the same module and are
spelled alike in snake case.
-/
namespace TraitClient

open FilePath FileTree

/-! ## Places of units -/

/-- A name for the folder of a module that is no name of a generated file, even a half written one. -/
structure IsModuleFolder (name : String) : Prop where
  plain : IsPlain name
  not_unit : ¬"_impl.rs".toList <:+ name.toList
  not_temporary : ¬"_impl.rs.tmp".toList <:+ name.toList

namespace SourceUnit

variable {u v : SourceUnit}

def place (u : SourceUnit) : Location := u.modulePath ++ [u.fileName]

/-- Where a unit is while it is being written. -/
def temporaryPlace (u : SourceUnit) : Location := u.modulePath ++ [u.fileName ++ ".tmp"]

theorem relativePath_eq (u : SourceUnit) : u.relativePath = u.place.foldl join "" := by
  rw [place, List.foldl_append]
  rfl

/-- The unit is in the folder of a module, in a file for generated code. -/
structure IsPlaced (u : SourceUnit) : Prop where
  folders : ∀ name ∈ u.modulePath, IsModuleFolder name
  file : ∃ stem : String, u.fileName = stem ++ "_impl.rs" ∧ '/' ∉ stem.toList

namespace IsPlaced

theorem plain_folders (h : u.IsPlaced) : ∀ name ∈ u.modulePath, IsPlain name :=
  fun name hMem => (h.folders name hMem).plain

theorem plain_fileName (h : u.IsPlaced) : IsPlain u.fileName := by
  obtain ⟨stem, hName, hStem⟩ := h.file
  rw [hName]
  exact isPlain_append hStem (by decide) (by decide)

theorem plain_temporary (h : u.IsPlaced) : IsPlain (u.fileName ++ ".tmp") := by
  obtain ⟨stem, hName, hStem⟩ := h.file
  rw [hName, String.append_assoc]
  exact isPlain_append hStem (by decide) (by decide)

theorem plain_place (h : u.IsPlaced) : ∀ name ∈ u.modulePath ++ [u.fileName], IsPlain name :=
  List.forall_mem_append.mpr ⟨h.plain_folders, by simpa using h.plain_fileName⟩

theorem plain_temporaryPlace (h : u.IsPlaced) :
    ∀ name ∈ u.modulePath ++ [u.fileName ++ ".tmp"], IsPlain name :=
  List.forall_mem_append.mpr ⟨h.plain_folders, by simpa using h.plain_temporary⟩

theorem fileName_not_folder (h : u.IsPlaced) : ¬IsModuleFolder u.fileName := by
  obtain ⟨stem, hName, _⟩ := h.file
  intro hFolder
  refine hFolder.not_unit ⟨stem.toList, ?_⟩
  rw [hName, String.toList_append]

theorem temporary_not_folder (h : u.IsPlaced) : ¬IsModuleFolder (u.fileName ++ ".tmp") := by
  obtain ⟨stem, hName, _⟩ := h.file
  intro hFolder
  refine hFolder.not_temporary ⟨stem.toList, ?_⟩
  rw [hName, String.append_assoc, String.toList_append]
  rfl

theorem temporary_ne_fileName (hv : v.IsPlaced) : u.fileName ++ ".tmp" ≠ v.fileName := by
  obtain ⟨stem, hName, _⟩ := hv.file
  intro hSame
  have hLast := congrArg (fun s : String => s.toList.getLast?) hSame
  rw [hName] at hLast
  simp [List.getLast?_append] at hLast

theorem withExtension_eq (h : u.IsPlaced) (directory : String) :
    withExtension (below directory u.place) "rs.tmp" = below directory u.temporaryPlace := by
  obtain ⟨stem, hName, hStem⟩ := h.file
  obtain ⟨before, hBefore, hBelow⟩ := exists_below_eq directory h.plain_folders
  have hSplit : splitExtension u.fileName = (stem ++ "_impl", some "rs") := by
    have hParts : u.fileName = (stem ++ "_impl") ++ "." ++ "rs" := by
      rw [hName]
      simp only [String.append_assoc]
      rfl
    have hStemmed : stem ++ "_impl" ≠ "" := by
      intro hEmpty
      have hPlain : IsPlain (stem ++ "_impl") := isPlain_append hStem (by decide) (by decide)
      rw [hEmpty] at hPlain
      exact hPlain.nonempty rfl
    rw [hParts]
    exact splitExtension_append hStemmed (by decide)
  refine String.toList_injective ?_
  have hFile := hBelow u.fileName h.plain_fileName
  have hTemporary := hBelow (u.fileName ++ ".tmp") h.plain_temporary
  rw [place, temporaryPlace, withExtension_of_name h.plain_fileName hFile hBefore, hSplit,
    hTemporary, hName]
  simp only [String.append_assoc]
  rfl

theorem relativePath_eq_iff (hu : u.IsPlaced) (hv : v.IsPlaced) :
    u.relativePath = v.relativePath ↔ u.modulePath = v.modulePath ∧ u.fileName = v.fileName := by
  rw [relativePath_eq, relativePath_eq]
  constructor
  · intro hSame
    have hPlaces := relative_injective hu.plain_place hv.plain_place hSame
    obtain ⟨hModule, hFile⟩ := List.append_inj' hPlaces rfl
    exact ⟨hModule, (List.cons.inj hFile).1⟩
  · rintro ⟨hModule, hFile⟩
    rw [place, place, hModule, hFile]

end IsPlaced
end SourceUnit

/-! ## What a folder holds -/

namespace OutputFolder

/-- What storing a unit makes of the entries of a folder. -/
def entriesAfter (held : Location → Option Entry) (u : SourceUnit) : Location → Option Entry :=
  entriesWith (entriesDownTo held u.modulePath) u.place (.file u.content.toUTF8.toList)

/-- The entries are those of stored units: folders of modules, and units in their places. -/
def OfUnits (held : Location → Option Entry) : Prop :=
  ∀ r e, r ≠ [] → held r = some e →
    (e = .directory ∧ ∀ name ∈ r, IsModuleFolder name) ∨
      ∃ u : SourceUnit, u.IsPlaced ∧ r = u.place ∧ e = .file u.content.toUTF8.toList

variable {held : Location → Option Entry} {u : SourceUnit}

theorem ofUnits_empty : OfUnits fun _ => none := by
  intro r e _ he
  simp at he

theorem OfUnits.downTo (h : OfUnits held) {names : List String}
    (hNames : ∀ name ∈ names, IsModuleFolder name) : OfUnits (entriesDownTo held names) := by
  intro r e hr he
  unfold entriesDownTo at he
  split at he
  · rename_i hPrefix
    injection he with he
    exact .inl ⟨he.symm, fun name hMem => hNames name (hPrefix.subset hMem)⟩
  · exact h r e hr he

theorem OfUnits.after (h : OfUnits held) (hu : u.IsPlaced) : OfUnits (entriesAfter held u) := by
  intro r e hr he
  unfold entriesAfter entriesWith at he
  split at he
  · rename_i hPlace
    injection he with he
    exact .inr ⟨u, hu, hPlace, he.symm⟩
  · exact h.downTo hu.folders r e hr he

theorem OfUnits.free (h : OfUnits held) {names : List String}
    (hNames : ∀ name ∈ names, IsModuleFolder name) {r : Location} (hr : r ≠ [])
    (hPrefix : r <+: names) : held r = none ∨ held r = some .directory := by
  cases hHeld : held r with
  | none => exact .inl rfl
  | some e =>
    rcases h r e hr hHeld with ⟨rfl, _⟩ | ⟨v, hv, rfl, _⟩
    · exact .inr rfl
    · refine absurd (hNames v.fileName (hPrefix.subset ?_)) hv.fileName_not_folder
      simp [SourceUnit.place]

/-- A place that ends in a name which is no folder's is no directory. -/
theorem OfUnits.ne_directory (h : OfUnits held) {r : Location} {name : String}
    (hName : ¬IsModuleFolder name) (hMem : name ∈ r) : held r ≠ some .directory := by
  intro hHeld
  rcases h r _ (List.ne_nil_of_mem hMem) hHeld with ⟨_, hFolders⟩ | ⟨v, _, _, hFile⟩
  · exact hName (hFolders name hMem)
  · simp at hFile

theorem OfUnits.no_temporary (h : OfUnits held) (hu : u.IsPlaced) {r : Location}
    (hPrefix : u.temporaryPlace <+: r) : held r = none := by
  have hMem : u.fileName ++ ".tmp" ∈ r := hPrefix.subset (by simp [SourceUnit.temporaryPlace])
  rw [Option.eq_none_iff_forall_ne_some]
  intro e hHeld
  rcases h r e (List.ne_nil_of_mem hMem) hHeld with ⟨_, hFolders⟩ | ⟨v, hv, rfl, _⟩
  · exact hu.temporary_not_folder (hFolders _ hMem)
  · rcases List.mem_append.mp hMem with hFolder | hFile
    · exact hu.temporary_not_folder (hv.folders _ hFolder)
    · exact hv.temporary_ne_fileName (List.mem_singleton.mp hFile)

/-! ## Storing a unit -/

variable {t : FileTree} {directory : String} {l : Location}

/-- What is written at a free place and moved from there is as if it were written at its target. -/
theorem entriesWith_moved {source : Location} (h : ∀ r, source <+: r → held r = none)
    (target : Location) (e : Entry) :
    entriesWith (entriesWithout (entriesWith held source e) source) target e =
      entriesWith held target e := by
  funext r
  by_cases hTarget : r = target
  · rw [hTarget, entriesWith_self, entriesWith_self]
  rw [entriesWith_of_ne hTarget, entriesWith_of_ne hTarget, entriesWithout]
  split
  · rename_i hPrefix
    exact (h r hPrefix).symm
  · rename_i hPrefix
    refine entriesWith_of_ne ?_ _
    rintro rfl
    exact hPrefix List.prefix_rfl

theorem heldDown_entriesWith {names : List String} (h : HeldDown held names) (name : String)
    (e : Entry) : HeldDown (entriesWith held (names ++ [name]) e) names := by
  intro r hr hPrefix
  rw [entriesWith_of_ne]
  · exact h r hr hPrefix
  · rintro rfl
    have hLonger := hPrefix.length_le
    rw [List.length_append, List.length_singleton] at hLonger
    omega

/-- A unit is written in full under another name, then moved. -/
theorem writeAtomic_holds (h : t.Holds directory l held) (hUnits : OfUnits held)
    (hu : u.IsPlaced) (hFolders : HeldDown held u.modulePath) :
    ∃ t', writeAtomic t (below directory u.place) u.content = (t', .ok ()) ∧
      t'.Holds directory l (entriesWith held u.place (.file u.content.toUTF8.toList)) := by
  have hNothing : ∀ r, u.temporaryPlace <+: r → held r = none := fun _ => hUnits.no_temporary hu
  have hFree : held u.temporaryPlace ≠ some .directory := by
    rw [hNothing _ (List.prefix_refl _)]
    simp
  have hApart : u.place ≠ u.temporaryPlace := by
    intro hSame
    have hNames := (List.append_inj' hSame rfl).2
    exact hu.temporary_ne_fileName (List.cons.inj hNames).1.symm
  obtain ⟨t₁, hWritten, h₁⟩ := h.write? hu.plain_temporaryPlace hFolders hFree
    u.content.toUTF8.toList
  have hBelow : ∀ names, entriesWith held u.temporaryPlace (.file u.content.toUTF8.toList)
      (u.temporaryPlace ++ names) ≠ some .directory := by
    intro names
    unfold entriesWith
    split
    · simp
    · rw [hNothing _ (List.prefix_append _ _)]
      simp
  have hTarget : entriesWith held u.temporaryPlace (.file u.content.toUTF8.toList) u.place ≠
      some .directory := by
    rw [entriesWith_of_ne hApart]
    exact hUnits.ne_directory hu.fileName_not_folder (by simp [SourceUnit.place])
  obtain ⟨t₂, hMoved, h₂⟩ := h₁.rename? hu.plain_temporaryPlace hu.plain_place
    (heldDown_entriesWith hFolders _ _) (entriesWith_self _ _) hBelow hTarget
  have hWritten : t.writeText? (below directory u.temporaryPlace) u.content = some t₁ := hWritten
  have hMoved : t₁.rename? (below directory u.temporaryPlace) (below directory u.place) =
      some t₂ := hMoved
  refine ⟨t₂, by simp only [writeAtomic, hu.withExtension_eq, hWritten, hMoved], ?_⟩
  exact h₂.congr fun r _ => congrFun (entriesWith_moved hNothing u.place _) r

theorem store_holds (h : t.Holds directory l held) (hUnits : OfUnits held) (hu : u.IsPlaced) :
    ∃ t', store t (below directory u.place) u.content = (t', .ok ()) ∧
      t'.Holds directory l (entriesAfter held u) := by
  obtain ⟨parent, t₁, hParent, hMade, h₁⟩ := h.makeAll? hu.plain_place
    fun r hr hPrefix => hUnits.free hu.folders hr hPrefix
  obtain ⟨t₂, hWritten, h₂⟩ := writeAtomic_holds h₁ (hUnits.downTo hu.folders) hu
    fun r _ hPrefix => if_pos hPrefix
  have hParent : parent? (below directory u.place) = some parent := hParent
  exact ⟨t₂, by simp only [store, hParent, hMade, hWritten], h₂⟩

theorem entriesAfter_eq_self (hFolders : HeldDown held u.modulePath)
    (hFile : held u.place = some (.file u.content.toUTF8.toList)) {r : Location} (hr : r ≠ []) :
    held r = entriesAfter held u r := by
  unfold entriesAfter entriesWith
  split
  · rename_i hPlace
    rw [hPlace, hFile]
  unfold entriesDownTo
  split
  · rename_i hPrefix
    exact hFolders r hr hPrefix
  · rfl

theorem sink_holds {f : OutputFolder} (h : f.tree.Holds f.directory l held)
    (hUnits : OfUnits held) (hu : u.IsPlaced) :
    (sink f u).1.tree.Holds f.directory l (entriesAfter held u) ∧
      (sink f u).1.directory = f.directory ∧ ∃ outcome, (sink f u).2.result = .ok outcome := by
  have hAnnounced : (f.announce u).tree = f.tree ∧ (f.announce u).directory = f.directory := by
    unfold announce
    split <;> exact ⟨rfl, rfl⟩
  have hPath : join f.directory u.relativePath = below f.directory u.place := by
    rw [u.relativePath_eq]
    rfl
  have hRead := h.readText? hu.plain_place u.content
  unfold sink
  simp only [hAnnounced, hPath]
  split
  · rename_i hSame
    obtain ⟨hFolders, hFile⟩ := hRead.mp (beq_iff_eq.mp hSame)
    refine ⟨?_, hAnnounced.2, _, rfl⟩
    rw [hAnnounced.1]
    exact h.congr fun r hr => entriesAfter_eq_self hFolders hFile hr
  · obtain ⟨t', hStored, hHolds⟩ := store_holds h hUnits hu
    rw [hStored]
    exact ⟨hHolds, rfl, _, rfl⟩

/-! ## Storing all units -/

theorem storeAll_holds {units : List SourceUnit} (hUnits : OfUnits held)
    (hPlaced : ∀ u ∈ units, u.IsPlaced) (report : Report) {f : OutputFolder}
    (h : f.tree.Holds f.directory l held) :
    (storeAll sink f report units).1.tree.Holds f.directory l (units.foldl entriesAfter held) ∧
      ∃ report', (storeAll sink f report units).2.result = .ok report' := by
  induction units generalizing held report f with
  | nil => exact ⟨h, report, rfl⟩
  | cons u rest ih =>
    obtain ⟨hu, hRest⟩ := List.forall_mem_cons.mp hPlaced
    obtain ⟨hHolds, hDirectory, outcome, hOutcome⟩ := sink_holds h hUnits hu
    have hMore := ih (hUnits.after hu) hRest (report.record u outcome) (hDirectory ▸ hHolds)
    rw [hDirectory] at hMore
    simp only [storeAll, hOutcome, List.foldl_cons]
    exact hMore

/-- A unit stays in its place until one comes that shares it. -/
theorem foldl_entriesAfter {units : List SourceUnit} (hu : u.IsPlaced)
    (hPlaced : ∀ v ∈ units, v.IsPlaced) (hApart : ∀ v ∈ units, v.place ≠ u.place)
    (hFolders : HeldDown held u.modulePath)
    (hFile : held u.place = some (.file u.content.toUTF8.toList)) :
    HeldDown (units.foldl entriesAfter held) u.modulePath ∧
      units.foldl entriesAfter held u.place = some (.file u.content.toUTF8.toList) := by
  induction units generalizing held with
  | nil => exact ⟨hFolders, hFile⟩
  | cons v rest ih =>
    obtain ⟨hv, hRest⟩ := List.forall_mem_cons.mp hPlaced
    obtain ⟨hOther, hOthers⟩ := List.forall_mem_cons.mp hApart
    refine ih hRest hOthers ?_ ?_
    · intro r hr hPrefix
      have hNoFile : r ≠ v.place := by
        rintro rfl
        refine hv.fileName_not_folder (hu.folders _ (hPrefix.subset ?_))
        simp [SourceUnit.place]
      rw [entriesAfter, entriesWith_of_ne hNoFile, entriesDownTo, hFolders r hr hPrefix]
      split <;> rfl
    · have hNoFolder : ¬u.place <+: v.modulePath := by
        intro hPrefix
        refine hu.fileName_not_folder (hv.folders _ (hPrefix.subset ?_))
        simp [SourceUnit.place]
      rw [entriesAfter, entriesWith_of_ne (Ne.symm hOther), entriesDownTo, if_neg hNoFolder, hFile]

theorem readText?_of_last {earlier later : List SourceUnit}
    (hPlaced : ∀ v ∈ earlier ++ u :: later, v.IsPlaced)
    (hLast : ∀ v ∈ later, v.relativePath ≠ u.relativePath)
    (h : t.Holds directory l ((earlier ++ u :: later).foldl entriesAfter fun _ => none)) :
    t.readText? (join directory u.relativePath) = some u.content := by
  obtain ⟨_, hMore⟩ := List.forall_mem_append.mp hPlaced
  obtain ⟨hu, hLater⟩ := List.forall_mem_cons.mp hMore
  have hApart : ∀ v ∈ later, v.place ≠ u.place := by
    intro v hv hSame
    refine hLast v hv ?_
    rw [v.relativePath_eq, u.relativePath_eq, hSame]
  have hFolders : ∀ held, HeldDown (entriesAfter held u) u.modulePath := by
    intro held r hr hPrefix
    have hNoFile : r ≠ u.place := by
      rintro rfl
      have hLonger := hPrefix.length_le
      rw [SourceUnit.place, List.length_append, List.length_singleton] at hLonger
      omega
    rw [entriesAfter, entriesWith_of_ne hNoFile]
    exact if_pos hPrefix
  rw [List.foldl_append, List.foldl_cons] at h
  have hFound := foldl_entriesAfter hu hLater hApart
    (hFolders (earlier.foldl entriesAfter fun _ => none)) (entriesWith_self _ _)
  rw [u.relativePath_eq]
  exact (h.readText? hu.plain_place u.content).mpr hFound

end OutputFolder

/-! ## Units of a run -/

/-- What the place of the unit of an interface is made of: its module, and its name in snake case. -/
def Interface.unitKey (i : Interface) : List String × String :=
  (i.modulePath, Naming.snakeCase i.name)

namespace Emission

def code (runtime : Source.PathExpr) (i : Interface) (encodings : List BodyEncoding) : Code.Unit :=
  ⟨runtime, items i encodings⟩

/-- There is a unit where each method has its encoding, all names can be written and the code can be
read, and no trait has the name that stands for any type. -/
theorem unit_eq_ok_iff {runtime : Source.PathExpr} {i : Interface} {encodings : List BodyEncoding}
    {u : SourceUnit} : unit runtime i encodings = .ok u ↔
      encodings.length = i.methods.length ∧
      Code.firstBad? (code runtime i encodings).words = none ∧
      (Source.parseItems? (code runtime i encodings).tokens).isSome = true ∧
      (∀ g ∈ traitGroups i encodings, g.trait ≠ inferred) ∧
      u = ⟨i.modulePath, i.implName, i.fileName,
        header i ++ "\n" ++ (code runtime i encodings).layout, i.sourceFile⟩ := by
  simp only [unit, code]
  by_cases hLength : encodings.length = i.methods.length
  · rw [if_neg (not_not_intro hLength)]
    cases Code.firstBad? (Code.Unit.words ⟨runtime, items i encodings⟩) with
    | some w => simp
    | none =>
      cases Source.parseItems? (Code.Unit.tokens ⟨runtime, items i encodings⟩) with
      | none => simp
      | some parsed =>
        cases hInferred : (traitGroups i encodings).any (·.trait == inferred) with
        | true =>
          have hNot : ¬∀ g ∈ traitGroups i encodings, g.trait ≠ inferred := by
            simpa using hInferred
          simp [hNot]
        | false =>
          have hAll : ∀ g ∈ traitGroups i encodings, g.trait ≠ inferred := by
            simpa using hInferred
          simp only [Option.isNone_some, Option.isSome_some, Bool.false_eq_true, if_false,
            Except.ok.injEq, hLength, true_and]
          exact ⟨fun h => ⟨hAll, h.symm⟩, fun h => h.2.symm⟩
  · rw [if_pos hLength]
    simp [hLength]

theorem unit_eq_ok {runtime : Source.PathExpr} {i : Interface} {encodings : List BodyEncoding}
    {u : SourceUnit} (h : unit runtime i encodings = .ok u) :
    u.modulePath = i.modulePath ∧ u.fileName = i.fileName ∧
      (Code.Word.ident i.factoryName).isToken = true := by
  obtain ⟨_, hWords, _, _, rfl⟩ := unit_eq_ok_iff.mp h
  refine ⟨rfl, rfl, ?_⟩
  have hTokens := List.find?_eq_none.mp hWords (.ident i.factoryName) ?_
  · simpa using hTokens
  · refine List.mem_flatMap.mpr ⟨factoryItem i, by simp [code, items], ?_⟩
    simp [factoryItem, Code.Item.words, Code.Function.words, plainFunction]

theorem isPlaced_of_unit {runtime : Source.PathExpr} {i : Interface}
    {encodings : List BodyEncoding} {u : SourceUnit} (h : unit runtime i encodings = .ok u)
    (hFolders : ∀ name ∈ i.modulePath, IsModuleFolder name) : u.IsPlaced := by
  obtain ⟨hModule, hFile, hToken⟩ := unit_eq_ok h
  refine ⟨hModule ▸ hFolders, Naming.snakeCase i.name, hFile, ?_⟩
  have hSlash := Code.not_mem_of_isToken hToken (show Text.isIdentContinue '/' = false by decide)
    (by decide)
  rw [Interface.factoryName, String.toList_append, List.mem_append, not_or] at hSlash
  exact hSlash.2

theorem relativePath_eq_iff_unitKey {runtime : Source.PathExpr} {i j : Interface}
    {encodings encodings' : List BodyEncoding} {u v : SourceUnit}
    (hu : unit runtime i encodings = .ok u) (hv : unit runtime j encodings' = .ok v)
    (hi : ∀ name ∈ i.modulePath, IsModuleFolder name)
    (hj : ∀ name ∈ j.modulePath, IsModuleFolder name) :
    u.relativePath = v.relativePath ↔ i.unitKey = j.unitKey := by
  obtain ⟨hModule, hFile, _⟩ := unit_eq_ok hu
  obtain ⟨hModule', hFile', _⟩ := unit_eq_ok hv
  rw [(isPlaced_of_unit hu hi).relativePath_eq_iff (isPlaced_of_unit hv hj), hModule, hModule',
    hFile, hFile', Interface.unitKey, Interface.unitKey, Prod.mk.injEq, Interface.fileName,
    Interface.fileName, String.append_left_inj]

end Emission

namespace Generator

def unit? (g : Generator) (p : Plan) : Option SourceUnit :=
  (Emission.unit g.runtime p.interface p.encodings).toOption

theorem unitsUpToBadWord_attempts (g : Generator) {plans : List Plan}
    {attempts : List (Except GenerationError SourceUnit)}
    (h : g.unitsUpToBadWord plans = (attempts, none)) :
    attempts.map (·.toOption) = plans.map g.unit? := by
  induction plans generalizing attempts with
  | nil =>
    cases h
    rfl
  | cons p plans ih =>
    rw [unitsUpToBadWord] at h
    cases hUnit : Emission.unit g.runtime p.interface p.encodings with
    | ok u =>
      simp only [hUnit, Prod.mk.injEq] at h
      obtain ⟨rfl, hBad⟩ := h
      rw [List.map_cons, List.map_cons, ih (Prod.ext rfl hBad), unit?, hUnit]
      rfl
    | error failure =>
      cases failure with
      | badWord w => simp [hUnit] at h
      | error e =>
        simp only [hUnit, Prod.mk.injEq] at h
        obtain ⟨rfl, hBad⟩ := h
        rw [List.map_cons, List.map_cons, ih (Prod.ext rfl hBad), unit?, hUnit]
        rfl

theorem emit_attempts {g : Generator} {plans : List Plan} {units : List SourceUnit}
    {failed : List GenerationError} (h : (g.emit plans).result = .ok (units, failed)) :
    ∃ attempts : List (Except GenerationError SourceUnit),
      attempts.map (·.toOption) = plans.map g.unit? ∧ units = successes attempts ∧
        failed = failures attempts := by
  cases hUnits : g.unitsUpToBadWord plans with
  | mk attempts bad =>
    cases bad with
    | some w =>
      simp only [emit, hUnits] at h
      split at h <;> simp_all
    | none =>
      rw [emit_result hUnits] at h
      refine ⟨attempts, g.unitsUpToBadWord_attempts hUnits, ?_⟩
      cases hSettled : (settle g.settings.failFast attempts).result with
      | error e =>
        rw [hSettled] at h
        cases h
      | ok settled =>
        rw [hSettled] at h
        cases h
        exact settle_eq_ok hSettled

theorem emit_eq_ok {g : Generator} {plans : List Plan} {units : List SourceUnit}
    {failed : List GenerationError} (h : (g.emit plans).result = .ok (units, failed)) :
    units = plans.filterMap g.unit? := by
  obtain ⟨attempts, hAttempts, rfl, _⟩ := emit_attempts h
  have hFound := congrArg (List.filterMap id) hAttempts
  rw [List.filterMap_map, List.filterMap_map] at hFound
  exact hFound

theorem emit_all {g : Generator} {plans : List Plan} {units : List SourceUnit}
    (h : (g.emit plans).result = .ok (units, [])) : plans.map g.unit? = units.map some := by
  obtain ⟨attempts, hAttempts, rfl, hNone⟩ := emit_attempts h
  rw [← hAttempts, map_toOption_of_no_failures hNone.symm]

theorem exists_last {units : List SourceUnit} {path : String}
    (h : ∃ u ∈ units, u.relativePath = path) :
    ∃ earlier v later, units = earlier ++ v :: later ∧ v.relativePath = path ∧
      ∀ w ∈ later, w.relativePath ≠ path := by
  induction units with
  | nil =>
    obtain ⟨u, hMem, _⟩ := h
    exact absurd hMem List.not_mem_nil
  | cons u rest ih =>
    by_cases hRest : ∃ v ∈ rest, v.relativePath = path
    · obtain ⟨earlier, v, later, rfl, hPath, hLast⟩ := ih hRest
      exact ⟨u :: earlier, v, later, rfl, hPath, hLast⟩
    · obtain ⟨v, hMem, hPath⟩ := h
      rcases List.mem_cons.mp hMem with rfl | hMem
      · exact ⟨[], v, rest, rfl, hPath, fun w hw hSame => hRest ⟨w, hw, hSame⟩⟩
      · exact absurd ⟨v, hMem, hPath⟩ hRest

/-- How a run leaves its units in an output folder. -/
structure StoresUnits (g : Generator) (plans : List Plan) (units : List SourceUnit)
    (directory : String) (t : FileTree) : Prop where
  /-- Units share a path only if their traits share a module and a name in snake case. -/
  pathsDiffer_iff : units.Pairwise (fun u v => u.relativePath ≠ v.relativePath) ↔
    (plans.filter fun p => (g.unit? p).isSome).Pairwise fun p q =>
      p.interface.unitKey ≠ q.interface.unitKey
  /-- A unit is lost only if another one with the same path differs from it. -/
  allFound_iff : (∀ u ∈ units, t.readText? (join directory u.relativePath) = some u.content) ↔
    ∀ u ∈ units, ∀ v ∈ units, u.relativePath = v.relativePath → u.content = v.content
  allFound_of_pathsDiffer : units.Pairwise (fun u v => u.relativePath ≠ v.relativePath) →
    ∀ u ∈ units, t.readText? (join directory u.relativePath) = some u.content

theorem unit?_eq_some_iff {g : Generator} {p : Plan} {u : SourceUnit} :
    g.unit? p = some u ↔ Emission.unit g.runtime p.interface p.encodings = .ok u := by
  unfold unit?
  cases Emission.unit g.runtime p.interface p.encodings <;> simp [Except.toOption]

theorem pathsDiffer_iff {g : Generator} {plans : List Plan}
    (hFolders : ∀ p ∈ plans, ∀ name ∈ p.interface.modulePath, IsModuleFolder name) :
    (plans.filterMap g.unit?).Pairwise (fun u v => u.relativePath ≠ v.relativePath) ↔
      (plans.filter fun p => (g.unit? p).isSome).Pairwise fun p q =>
        p.interface.unitKey ≠ q.interface.unitKey := by
  rw [List.pairwise_filterMap, List.pairwise_filter]
  refine List.Pairwise.iff_of_mem ?_
  intro p q hp hq
  have hKeys : ∀ u v, g.unit? p = some u → g.unit? q = some v →
      (u.relativePath = v.relativePath ↔ p.interface.unitKey = q.interface.unitKey) := by
    intro u v hu hv
    exact Emission.relativePath_eq_iff_unitKey (unit?_eq_some_iff.mp hu) (unit?_eq_some_iff.mp hv)
      (hFolders p hp) (hFolders q hq)
  constructor
  · intro h hpUnit hqUnit
    obtain ⟨u, hu⟩ := Option.isSome_iff_exists.mp hpUnit
    obtain ⟨v, hv⟩ := Option.isSome_iff_exists.mp hqUnit
    exact fun hSame => h u hu v hv ((hKeys u v hu hv).mpr hSame)
  · intro h u hu v hv hSame
    exact h (by simp [hu]) (by simp [hv]) ((hKeys u v hu hv).mp hSame)

theorem same_content_of_pathsDiffer {units : List SourceUnit}
    (h : units.Pairwise fun u v => u.relativePath ≠ v.relativePath) :
    ∀ u ∈ units, ∀ v ∈ units, u.relativePath = v.relativePath → u.content = v.content := by
  induction units with
  | nil => exact fun u hu => absurd hu List.not_mem_nil
  | cons w rest ih =>
    obtain ⟨hFirst, hRest⟩ := List.pairwise_cons.mp h
    intro u hu v hv hSame
    rcases List.mem_cons.mp hu with rfl | hu
    · rcases List.mem_cons.mp hv with rfl | hv
      · rfl
      · exact absurd hSame (hFirst v hv)
    · rcases List.mem_cons.mp hv with hv | hv
      · exact absurd (hv ▸ hSame).symm (hFirst u hu)
      · exact ih hRest u hu v hv hSame

theorem holds_of_empty {t : FileTree} {directory : String} {l : Location}
    (hDirectory : t.entry? directory = some (l, .directory))
    (hEmpty : ∀ e ∈ t.entries, l <+: e.1 → e.1 = l) : t.Holds directory l fun _ => none := by
  obtain ⟨hPath, hLeads⟩ := entry?_eq_iff.mp hDirectory
  refine ⟨hPath, hLeads, fun e he hPrefix hOther => absurd (hEmpty e he hPrefix) hOther, ?_⟩
  intro r hr
  rw [Option.eq_none_iff_forall_ne_some]
  intro e he
  have hSame := hEmpty _ (mem_of_get? (by simp [hr]) he) (List.prefix_append l r)
  simp [hr] at hSame

/-- Units of one run overwrite each other only if their paths are the same, which they are only for
traits of one module whose names have one snake case. -/
theorem runFiles_storesUnits {g : Generator} {files : List SourceFile} {f : OutputFolder}
    {l : Location} {a : Analysis} {units : List SourceUnit} {failed : List GenerationError}
    (hAnalysis : (g.analyzeFiles files).result = .ok a)
    (hEmitted : (g.emit a.plans).result = .ok (units, failed))
    (hFolders : ∀ p ∈ a.plans, ∀ name ∈ p.interface.modulePath, IsModuleFolder name)
    (hDirectory : f.tree.entry? f.directory = some (l, .directory))
    (hEmpty : ∀ e ∈ f.tree.entries, l <+: e.1 → e.1 = l) :
    StoresUnits g a.plans units f.directory (g.runFiles OutputFolder.sink f files).1.tree := by
  have hUnits := emit_eq_ok hEmitted
  have hPlaced : ∀ u ∈ units, u.IsPlaced := by
    intro u hu
    rw [hUnits] at hu
    obtain ⟨p, hp, hUnit⟩ := List.mem_filterMap.mp hu
    exact Emission.isPlaced_of_unit (unit?_eq_some_iff.mp hUnit) (hFolders p hp)
  have hRun : (g.runFiles OutputFolder.sink f files).1 =
      (storeAll OutputFolder.sink f ⟨a.filesScanned, [], [], [], a.warnings⟩ units).1 :=
    (writeAnalysis_of_ok hAnalysis g _ f).1.trans (write_of_ok hEmitted _ f).1
  have hHolds := (OutputFolder.storeAll_holds OutputFolder.ofUnits_empty hPlaced
    ⟨a.filesScanned, [], [], [], a.warnings⟩ (holds_of_empty hDirectory hEmpty)).1
  rw [← hRun] at hHolds
  have hFound : ∀ u ∈ units, ∃ v ∈ units, v.relativePath = u.relativePath ∧
      (g.runFiles OutputFolder.sink f files).1.tree.readText? (join f.directory u.relativePath) =
        some v.content := by
    intro u hu
    obtain ⟨earlier, v, later, hSplit, hPath, hLast⟩ := exists_last ⟨u, hu, rfl⟩
    refine ⟨v, by simp [hSplit], hPath, ?_⟩
    rw [← hPath] at hLast ⊢
    exact OutputFolder.readText?_of_last (hSplit ▸ hPlaced) hLast (hSplit ▸ hHolds)
  have hAllFound : (∀ u ∈ units, (g.runFiles OutputFolder.sink f files).1.tree.readText?
      (join f.directory u.relativePath) = some u.content) ↔
      ∀ u ∈ units, ∀ v ∈ units, u.relativePath = v.relativePath → u.content = v.content := by
    constructor
    · intro hAll u hu v hv hSame
      have hHere := hAll u hu
      rw [hSame, hAll v hv] at hHere
      exact (Option.some.inj hHere).symm
    · intro hAgree u hu
      obtain ⟨v, hv, hPath, hRead⟩ := hFound u hu
      rw [hRead, hAgree v hv u hu hPath]
  exact ⟨hUnits ▸ pathsDiffer_iff hFolders, hAllFound,
    fun hApart => hAllFound.mpr (same_content_of_pathsDiffer hApart)⟩

theorem settle_of_no_failures {α : Type} {failFast : Bool} {xs : List (Except GenerationError α)}
    (h : failures xs = []) : (settle failFast xs).result = .ok (successes xs, []) := by
  cases failFast with
  | false => rw [settle_keepGoing, h]
  | true =>
    rw [settle_failFast, firstError?_eq_head?, h]
    rfl

theorem analyzeFiles_of_no_failures {g : Generator} {files : List SourceFile}
    (h : failures (g.planned files) = []) : (g.analyzeFiles files).result =
      .ok ⟨files.length, successes (g.planned files), [], []⟩ := by
  rw [analyzeFiles_result, settle_of_no_failures h]
  rfl

theorem results_of_no_failures {g : Generator} {files : List SourceFile}
    (hPlanned : failures (g.planned files) = []) (hEmitted : failures (g.emitted files) = []) :
    (g.analyzeFiles files).result = .ok ⟨files.length, successes (g.planned files), [], []⟩ ∧
      (g.emit (successes (g.planned files))).result = .ok (successes (g.emitted files), []) := by
  constructor
  · exact analyzeFiles_of_no_failures hPlanned
  · have hNoBadWord : ∀ w, .error (.badWord w) ∉ g.emitted files := by
      intro w hMem
      rw [← mem_failures, hEmitted] at hMem
      exact absurd hMem List.not_mem_nil
    obtain ⟨units, hUnits, hGood, hBad⟩ := unitsUpToBadWord_of_noBadWord g hNoBadWord
    have hNone : failures units = [] := hBad.trans (congrArg _ hEmitted)
    rw [emit_result hUnits, settle_of_no_failures hNone, hGood]
    rfl

/-- Two services of one module, without functions. -/
def twoServices (first second : String) : List SourceFile :=
  [⟨"src/docs.rs", ["docs"],
    [.trait { oneFunctionTrait first "get" "/docs" with functions := [] },
      .trait { oneFunctionTrait second "get" "/docs" with functions := [] }]⟩]

def emptyFolder : OutputFolder := ⟨FileTree.fresh ["out"], "/out", false, []⟩

def docsAndPosts : List SourceFile := twoServices "Docs" "Posts"

theorem docsAndPosts_stored :
    (failures (shortGenerator.planned docsAndPosts)).isEmpty = true ∧
      (failures (shortGenerator.emitted docsAndPosts)).isEmpty = true ∧
      StoresUnits shortGenerator (successes (shortGenerator.planned docsAndPosts))
        (successes (shortGenerator.emitted docsAndPosts)) "/out"
        (shortGenerator.runFiles OutputFolder.sink emptyFolder docsAndPosts).1.tree := by
  have hPlanned : (failures (shortGenerator.planned docsAndPosts)).isEmpty = true := by
    decide +kernel
  have hEmitted : (failures (shortGenerator.emitted docsAndPosts)).isEmpty = true := by
    decide +kernel
  have hModules : (successes (shortGenerator.planned docsAndPosts)).map
      (·.interface.modulePath) = [["docs"], ["docs"]] := by
    decide +kernel
  have hDocs : IsModuleFolder "docs" :=
    ⟨⟨by decide, by decide, by decide, by decide⟩, by decide, by decide⟩
  have hFolders : ∀ p ∈ successes (shortGenerator.planned docsAndPosts),
      ∀ name ∈ p.interface.modulePath, IsModuleFolder name := by
    intro p hp
    have hModule := List.mem_map_of_mem (f := (·.interface.modulePath)) hp
    rw [hModules] at hModule
    have hPath : p.interface.modulePath = ["docs"] := by simpa using hModule
    rw [hPath]
    simpa using hDocs
  have hDirectory : emptyFolder.tree.entry? emptyFolder.directory = some (["out"], .directory) := by
    decide +kernel
  have hEmpty : ∀ e ∈ emptyFolder.tree.entries, ["out"] <+: e.1 → e.1 = ["out"] := by
    decide +kernel
  obtain ⟨hAnalysis, hUnits⟩ := results_of_no_failures (List.isEmpty_iff.mp hPlanned)
    (List.isEmpty_iff.mp hEmitted)
  exact ⟨hPlanned, hEmitted, runFiles_storesUnits hAnalysis hUnits hFolders hDirectory hEmpty⟩

/-- Two names that are spelled alike in snake case give one path to two units. -/
theorem acronymServices_share :
    (successes (shortGenerator.outcomes (twoServices "HttpApi" "HTTPApi"))).map
      (fun u => (u.name, u.relativePath)) =
    [("HttpApiImpl", "docs/http_api_impl.rs"), ("HTTPApiImpl", "docs/http_api_impl.rs")] := by
  decide +kernel

end Generator
end TraitClient
