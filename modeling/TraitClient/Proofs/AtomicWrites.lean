import TraitClient.Proofs.LoggedLaws
import TraitClient.Proofs.SoundTrees

/-!
# Writes that leave no trace

A unit is written under another name and then moved.  A write that fails leaves the files as they
were, and one that succeeds changes its own file only, exactly if nothing had the other name where
the unit can be moved, and the other file had the content already where it cannot.
-/
namespace TraitClient
namespace OutputFolder

open FileTree

variable {t before made after : FileTree} {path content : String} {r : Lookup}

/-- The name under which a file is written first. -/
def temporary (path : String) : String := FilePath.withExtension path "rs.tmp"

/-! ## What a write does -/

/-- A file can be written at a path. -/
def CanWrite (t : FileTree) (path : String) : Prop :=
  ∃ r, t.lookup path true = some r ∧ t.IsOpen r.place

/-- A file can be moved to a path, whatever is replaced by it. -/
def CanReplace (t : FileTree) (path : String) : Prop :=
  ∃ r, t.lookup path false = some r ∧ t.get? r.place ≠ some .directory

def withText (t : FileTree) (l : Location) (content : String) : FileTree :=
  t.put l (.file content.toUTF8.toList)

/-- What a write can do to a sound tree. -/
inductive Steps (t : FileTree) (path content : String) :
    FileTree × Except GenerationError Unit → Prop
  | refused (hTemporary : ¬CanWrite t (temporary path)) :
    Steps t path content (t, .error (.io (temporary path)))
  | stuck {r : Lookup} (hWritten : t.lookup (temporary path) true = some r)
    (hOpen : t.IsOpen r.place) (hTarget : ¬CanReplace t path) :
    Steps t path content (withText t r.place content, .error (.io path))
  | moved {r source target : Lookup} {e : Entry}
    (hWritten : t.lookup (temporary path) true = some r) (hOpen : t.IsOpen r.place)
    (hSource : t.lookup (temporary path) false = some source)
    (hNamed : t.get? source.place ≠ some .directory)
    (hTarget : t.lookup path false = some target)
    (hReplaced : t.get? target.place ≠ some .directory)
    (hMoved : (withText t r.place content).get? source.place = some e) :
    Steps t path content
      (((withText t r.place content).drop source.place).put target.place e, .ok ())

theorem writeText?_eq_some_iff :
    t.writeText? path content = some after ↔ ∃ r, t.lookup path true = some r ∧ t.IsOpen r.place ∧
      after = withText t r.place content :=
  write?_eq_some_iff

theorem withText_isSound (hSound : t.IsSound) {name : String} {r : Lookup}
    (h : t.lookup name true = some r) (hOpen : t.IsOpen r.place) :
    (withText t r.place content).IsSound := by
  obtain ⟨front, last, hPlace, hFront, -⟩ := hSound.lookup_endsIn h hOpen.ne_directory
  unfold withText
  rw [hPlace] at hOpen ⊢
  exact hSound.put hFront hOpen.ne_directory

theorem get?_withText {l : Location} (hOpen : t.IsOpen l) (other : Location) :
    (withText t l content).get? other =
      if other = l then some (.file content.toUTF8.toList) else t.get? other :=
  get?_put (ne_nil_of_ne_directory hOpen.ne_directory) _ other

theorem withText_sameWays (hSound : t.IsSound) {l : Location} (hOpen : t.IsOpen l) :
    t.SameWays (withText t l content) :=
  put_sameWays hSound.distinct (ne_nil_of_ne_directory hOpen.ne_directory) hOpen _

theorem withText_directory {l : Location} (hOpen : t.IsOpen l) (other : Location) :
    (withText t l content).get? other = some .directory ↔ t.get? other = some .directory := by
  rw [get?_withText hOpen]
  split
  · rename_i hSame
    rw [hSame]
    exact ⟨fun h => by simp at h, fun h => absurd h hOpen.ne_directory⟩
  · rfl

/-- Where a file can be written there is something to be moved afterwards: the file, or a link that
leads to it. -/
theorem exists_source (content : String) (hWritten : t.lookup path true = some r)
    (hOpen : t.IsOpen r.place) :
    ∃ source, t.lookup path false = some source ∧ t.get? source.place ≠ some .directory ∧
      ∃ e, (withText t r.place content).get? source.place = some e := by
  rcases t.lookup_last path with hSame | ⟨l, target, hLink⟩
  · refine ⟨r, hSame.trans hWritten, hOpen.ne_directory, .file content.toUTF8.toList, ?_⟩
    rw [get?_withText hOpen, if_pos rfl]
  · have hGet : t.get? l = some (.link target) := get?_of_found hLink
    refine ⟨_, hLink, by simp [Lookup.place, hGet], .link target, ?_⟩
    rw [Lookup.place, get?_withText hOpen, if_neg]
    · exact hGet
    · rintro rfl
      exact hOpen.not_isLink hGet ⟨target, rfl⟩

theorem writeAtomic_steps (hSound : t.IsSound) (path content : String) :
    Steps t path content (writeAtomic t path content) := by
  have hTemporary : FilePath.withExtension path "rs.tmp" = temporary path := rfl
  simp only [writeAtomic, hTemporary]
  cases hFirst : t.writeText? (temporary path) content with
  | none =>
    refine .refused ?_
    rintro ⟨r, hWritten, hOpen⟩
    have hDone : t.writeText? (temporary path) content = some (withText t r.place content) :=
      writeText?_eq_some_iff.mpr ⟨r, hWritten, hOpen, rfl⟩
    cases hFirst.symm.trans hDone
  | some half =>
    obtain ⟨r, hWritten, hOpen, rfl⟩ := writeText?_eq_some_iff.mp hFirst
    dsimp only
    obtain ⟨source, hSource, hNamed, e, hMoved⟩ := exists_source content hWritten hOpen
    -- Only an open place was written, so that every path still leads where it did.
    have hWays : t.SameWays (withText t r.place content) := withText_sameWays hSound hOpen
    have hSource' := hWays.lookup hSound hSource
    rw [hMoved] at hSource'
    cases hSecond : (withText t r.place content).rename? (temporary path) path with
    | none =>
      refine .stuck hWritten hOpen ?_
      rintro ⟨target, hTarget, hReplaced⟩
      have hTarget' := hWays.lookup hSound hTarget
      have hDone := rename?_eq_some_iff.mpr ⟨_, e, _, hSource', ?_, hTarget', ?_, rfl⟩
      · cases hSecond.symm.trans hDone
      · rintro rfl
        exact hNamed ((withText_directory hOpen _).mp hMoved)
      · rw [place_entryLookup, Ne, withText_directory hOpen]
        exact hReplaced
    | some after =>
      obtain ⟨s, e', target', hFound, -, hTarget', hReplaced, rfl⟩ :=
        rename?_eq_some_iff.mp hSecond
      cases hSource'.symm.trans hFound
      have hPlaces := hWays.lookup_place hSound false path
      rw [hTarget'] at hPlaces
      obtain ⟨target, hTarget, hPlace⟩ := Option.map_eq_some_iff.mp hPlaces.symm
      rw [← hPlace] at hReplaced ⊢
      rw [Ne, withText_directory hOpen] at hReplaced
      exact .moved hWritten hOpen hSource hNamed hTarget hReplaced hMoved

/-- Of the three places that take part in a move, the last one has what was moved. -/
theorem get?_moved (hSound : t.IsSound) {name : String} (hWritten : t.lookup name true = some r)
    (hOpen : t.IsOpen r.place) {source target : Location} (hNamed : t.get? source ≠ some .directory)
    (hReplaced : t.get? target ≠ some .directory) (e : Entry) (other : Location) :
    (((withText t r.place content).drop source).put target e).get? other =
      if other = target then some e else if other = source then none
      else if other = r.place then some (.file content.toUTF8.toList) else t.get? other := by
  have hSound' : (withText t r.place content).IsSound := withText_isSound hSound hWritten hOpen
  have hNamed' : (withText t r.place content).get? source ≠ some .directory := by
    rw [Ne, withText_directory hOpen]
    exact hNamed
  rw [get?_put (ne_nil_of_ne_directory hReplaced), hSound'.get?_drop hNamed', get?_withText hOpen]

/-! ## What a write promises -/

/-- A path has a text, and elsewhere there are at most some more directories than before.  What the
path names is told by the tree as it was when the directories were there. -/
def Stores (before made after : FileTree) (path content : String) : Prop :=
  ∃ r, made.lookup path false = some r ∧
    after.get? r.place = some (.file content.toUTF8.toList) ∧
    SameBut [r.place] before after ∧
    (made.IsOpen r.place → after.readText? path = some content)

/-- After an error there are at most some more directories than before. -/
def LeavesNoTrace (before made : FileTree) (path content : String) :
    FileTree × Except GenerationError Unit → Prop
  | (after, .ok ()) => Stores before made after path content
  | (after, .error _) => SameBut [] before after

/-- Nothing has that name in its directory. -/
def IsFree (t : FileTree) (path : String) : Prop :=
  ∃ l, t.lookup path false = some (.missing l)

/-- What is written under the other name, if anything, is moved away from where nothing was before,
or is what was there before. -/
def ClearsUp (t : FileTree) (path content : String) : Prop :=
  CanWrite t (temporary path) →
    (CanReplace t path ∧ IsFree t (temporary path)) ∨
      (¬CanReplace t path ∧ t.readText? (temporary path) = some content)

theorem readText?_eq_some_iff (h : t.lookup path true = some r) :
    t.readText? path = some content ↔ t.get? r.place = some (.file content.toUTF8.toList) := by
  unfold readText? read? entry?
  rw [h]
  cases r with
  | missing l => simp [Lookup.place, get?_of_missing h]
  | found l e =>
    rw [Lookup.place, get?_of_found h]
    cases e with
    | file bytes => simp [fromUTF8?_eq_some_iff]
    | directory => simp
    | link target => simp

theorem place_ne (hSound : t.IsSound) {source target : Lookup}
    (hSource : t.lookup (temporary path) false = some source)
    (hNamed : t.get? source.place ≠ some .directory)
    (hTarget : t.lookup path false = some target)
    (hReplaced : t.get? target.place ≠ some .directory) : source.place ≠ target.place := by
  obtain ⟨_, last, hPlace, _, hLast⟩ := hSound.lookup_endsIn hTarget hReplaced
  obtain ⟨_, last', hPlace', _, hLast'⟩ := hSound.lookup_endsIn hSource hNamed
  obtain ⟨front, hSteps, hCurrent, hParent⟩ := hLast rfl
  obtain ⟨front', hSteps', -⟩ := hLast' rfl
  obtain ⟨other, name, hOther, hName⟩ := FilePath.exists_steps_withExtension hSteps
    hCurrent hParent (show '/' ∉ "rs.tmp".toList by decide) (by decide) (by decide)
  have hSame : last' = name := by
    have hBoth : front' ++ [last'] = other ++ [name] := hSteps'.symm.trans hOther
    exact List.singleton_inj.mp (List.append_inj' hBoth rfl).2
  rw [hPlace, hPlace', hSame]
  intro hPlaces
  exact hName (List.singleton_inj.mp (List.append_inj' hPlaces rfl).2)

/-- A file that was written where nothing was, and moved. -/
theorem stores_moved (hSound : made.IsSound) (hMade : SameBut [] before made)
    {l : Location} (hFree : made.lookup (temporary path) false = some (.missing l))
    (hTarget : made.lookup path false = some r) (hReplaced : made.get? r.place ≠ some .directory) :
    Stores before made (((withText made l content).drop l).put r.place
      (.file content.toUTF8.toList)) path content := by
  have hNone : made.get? l = none := get?_of_missing hFree
  have hOpen : made.IsOpen l := fun e he => by cases hNone.symm.trans he
  have hWritten : made.lookup (temporary path) true = some (.missing l) :=
    lookup_of_not_link hFree fun _ _ => by simp
  -- The place of the other name is free before and after, so that the target alone differs.
  have hThere : ∀ other, (((withText made l content).drop l).put r.place
      (.file content.toUTF8.toList)).get? other =
        if other = r.place then some (.file content.toUTF8.toList) else if other = l then none
        else if other = l then some (.file content.toUTF8.toList) else made.get? other :=
    get?_moved hSound hWritten hOpen hOpen.ne_directory hReplaced (.file content.toUTF8.toList)
  refine ⟨r, hTarget, ?_, ?_, fun hOpenTarget => ?_⟩
  · exact (hThere r.place).trans (if_pos rfl)
  · refine (hMade.mono (List.nil_subset _)).trans fun other hOther => .inl ?_
    rw [List.mem_singleton] at hOther
    refine (hThere other).trans ?_
    rw [if_neg hOther]
    by_cases hSame : other = l
    · rw [if_pos hSame, hSame, hNone]
    · rw [if_neg hSame, if_neg hSame]
  · have hWays : made.SameWays (withText made l content) := withText_sameWays hSound hOpen
    have hSound' : (withText made l content).IsSound := withText_isSound hSound hWritten hOpen
    have hOpen' : (withText made l content).IsOpen l := hWays.isOpen hOpen
    have hBoth := hWays.trans (hSound'.drop_sameWays hOpen')
    have hAfter := hBoth.trans (put_sameWays (hSound'.drop hOpen'.ne_directory).distinct
      (ne_nil_of_ne_directory hReplaced) (hBoth.isOpen hOpenTarget) content.toUTF8.toList)
    have hNamed := hAfter.lookup hSound hTarget
    have hText := (hThere r.place).trans (if_pos rfl)
    rw [hText] at hNamed
    exact (readText?_eq_some_iff (lookup_of_not_link hNamed fun _ _ => by simp [entryLookup])).mpr
      hText

theorem leavesNoTrace_iff (hSound : made.IsSound) (hMade : SameBut [] before made) :
    LeavesNoTrace before made path content (writeAtomic made path content) ↔
      ClearsUp made path content := by
  have hSteps := writeAtomic_steps hSound path content
  generalize writeAtomic made path content = result at hSteps
  cases hSteps with
  | refused hTemporary => exact ⟨fun _ hWrite => absurd hWrite hTemporary, fun _ => hMade⟩
  | @stuck r hWritten hOpen hTarget =>
    constructor
    · intro hSame _
      -- The text stays under the other name, so that it is what was there before.
      have hText : (withText made r.place content).get? r.place =
          some (.file content.toUTF8.toList) := by
        rw [get?_withText hOpen, if_pos rfl]
      have hBefore : (withText made r.place content).get? r.place = before.get? r.place :=
        hSame.get?_eq List.not_mem_nil (by simp [hText])
      refine .inr ⟨hTarget, (readText?_eq_some_iff hWritten).mpr ?_⟩
      rw [hMade.get?_eq List.not_mem_nil hOpen.ne_directory, ← hBefore, hText]
    · intro hClears
      obtain ⟨hReplace, -⟩ | ⟨-, hRead⟩ := hClears ⟨_, hWritten, hOpen⟩
      · exact absurd hReplace hTarget
      · refine hMade.trans fun l _ => .inl ?_
        rw [get?_withText hOpen]
        split
        · rename_i hPlace
          rw [hPlace, (readText?_eq_some_iff hWritten).mp hRead]
        · rfl
  | @moved r source target e hWritten hOpen hSource hNamed hTarget hReplaced hMoved =>
    have hApart := place_ne hSound hSource hNamed hTarget hReplaced
    constructor
    · rintro ⟨found, hFound, -, hSame, -⟩ _
      cases hTarget.symm.trans hFound
      -- Nothing is left under the other name, so that nothing was there before.
      have hGone : (((withText made r.place content).drop source.place).put target.place e).get?
          source.place = none := by
        rw [get?_moved hSound hWritten hOpen hNamed hReplaced, if_neg hApart, if_pos rfl]
      have hBefore : _ = before.get? source.place :=
        hSame.get?_eq (by simpa using hApart) (by simp [hGone])
      have hNone : made.get? source.place = none := by
        rw [hMade.get?_eq List.not_mem_nil hNamed, ← hBefore, hGone]
      refine .inl ⟨⟨target, hTarget, hReplaced⟩, source.place, ?_⟩
      rw [hSource, lookup_entry hSource, hNone, place_entryLookup]
      rfl
    · intro hClears
      obtain ⟨-, l, hFree⟩ | ⟨hReplace, -⟩ := hClears ⟨_, hWritten, hOpen⟩
      · cases hSource.symm.trans hFree
        cases hWritten.symm.trans (lookup_of_not_link hFree fun _ _ => by simp)
        rw [get?_withText hOpen, if_pos rfl] at hMoved
        cases hMoved
        exact stores_moved hSound hMade hFree hTarget hReplaced
      · exact absurd ⟨target, hTarget, hReplaced⟩ hReplace

def touched (t : FileTree) (path : String) : List Location :=
  [t.lookup (temporary path) true, t.lookup (temporary path) false, t.lookup path false].filterMap
    (·.map Lookup.place)

theorem writeAtomic_sameBut (hSound : t.IsSound) (path content : String) :
    SameBut (touched t path) t (writeAtomic t path content).1 := by
  have hSteps := writeAtomic_steps hSound path content
  generalize writeAtomic t path content = result at hSteps
  cases hSteps with
  | refused hTemporary => exact sameBut_refl _ t
  | @stuck r hWritten hOpen hTarget =>
    intro l hl
    rw [get?_withText hOpen, if_neg]
    · exact .inl rfl
    · rintro rfl
      exact hl (List.mem_filterMap.mpr ⟨some r, by simp [hWritten], rfl⟩)
  | @moved r source target e hWritten hOpen hSource hNamed hTarget hReplaced hMoved =>
    intro l hl
    rw [touched, hWritten, hSource, hTarget] at hl
    simp only [List.filterMap_cons, Option.map_some, List.filterMap_nil, List.mem_cons,
      List.not_mem_nil, or_false, not_or] at hl
    obtain ⟨hFirst, hSecond, hLast⟩ := hl
    rw [get?_moved hSound hWritten hOpen hNamed hReplaced, if_neg hLast, if_neg hSecond,
      if_neg hFirst]
    exact .inl rfl

theorem writeAtomic_isSound (hSound : t.IsSound) (path content : String) :
    (writeAtomic t path content).1.IsSound := by
  unfold writeAtomic
  dsimp only
  split
  · exact hSound
  · rename_i half hFirst
    have hHalf : half.IsSound := hSound.write? hFirst
    split
    · exact hHalf
    · rename_i hSecond
      exact hHalf.rename? hSecond

/-! ## Units -/

def madeFor? (t : FileTree) (path : String) : Option FileTree :=
  match FilePath.parent? path with
  | none => some t
  | some parent => t.makeAll? parent

theorem store_of_made (h : madeFor? t path = some made) (content : String) :
    store t path content = writeAtomic made path content := by
  unfold madeFor? at h
  unfold store
  cases hParent : FilePath.parent? path with
  | none =>
    rw [hParent] at h
    cases h
    rfl
  | some parent =>
    rw [hParent] at h
    simp only [h]

theorem store_of_not_made (h : madeFor? t path = none) (content : String) :
    ∃ error, store t path content = (t, .error error) := by
  unfold madeFor? at h
  unfold store
  cases hParent : FilePath.parent? path with
  | none =>
    rw [hParent] at h
    cases h
  | some parent =>
    rw [hParent] at h
    simp only [h]
    exact ⟨.io parent, rfl⟩

theorem madeFor?_sameBut (hSound : t.IsSound) (h : madeFor? t path = some made) :
    made.IsSound ∧ SameBut [] t made := by
  unfold madeFor? at h
  split at h
  · cases h
    exact ⟨hSound, sameBut_refl [] t⟩
  · exact hSound.makeDirectories? h

variable {f : OutputFolder} {u : SourceUnit}

def pathOf (f : OutputFolder) (u : SourceUnit) : String := FilePath.join f.directory u.relativePath

theorem announce_eq (f : OutputFolder) (u : SourceUnit) :
    (f.announce u).tree = f.tree ∧ (f.announce u).directory = f.directory := by
  unfold announce
  split <;> exact ⟨rfl, rfl⟩

theorem sink_of_same (h : f.tree.readText? (f.pathOf u) = some u.content) :
    (sink f u).1.tree = f.tree ∧ (sink f u).2.result = .ok (.unchanged (f.pathOf u)) := by
  obtain ⟨hTree, hDirectory⟩ := f.announce_eq u
  have hPath : FilePath.join f.directory u.relativePath = f.pathOf u := rfl
  simp only [sink, hTree, hDirectory, hPath, h, beq_self_eq_true, if_true]
  exact ⟨trivial, rfl⟩

theorem sink_of_other (h : f.tree.readText? (f.pathOf u) ≠ some u.content) :
    (sink f u).1.tree = (store f.tree (f.pathOf u) u.content).1 ∧
      (sink f u).2.result =
        (store f.tree (f.pathOf u) u.content).2.map fun _ => .written (f.pathOf u) := by
  obtain ⟨hTree, hDirectory⟩ := f.announce_eq u
  have hPath : FilePath.join f.directory u.relativePath = f.pathOf u := rfl
  simp only [sink, hTree, hDirectory, hPath, beq_iff_eq, if_neg h]
  refine ⟨trivial, ?_⟩
  rw [Logged.result_bind]
  cases hResult : (store f.tree (f.pathOf u) u.content).2 with
  | error e => rfl
  | ok done => rfl

/-- What a folder promises for a unit. -/
def KeepsFiles (f : OutputFolder) (u : SourceUnit) : Prop :=
  match (sink f u).2.result with
  | .error _ => SameBut [] f.tree (sink f u).1.tree
  | .ok (.unchanged path) =>
    path = f.pathOf u ∧ (sink f u).1.tree = f.tree ∧ f.tree.readText? path = some u.content
  | .ok (.written path) =>
    path = f.pathOf u ∧ ∃ made, madeFor? f.tree path = some made ∧
      Stores f.tree made (sink f u).1.tree path u.content

theorem sink_isSound (hSound : f.tree.IsSound) (u : SourceUnit) : (sink f u).1.tree.IsSound := by
  by_cases hRead : f.tree.readText? (f.pathOf u) = some u.content
  · rw [(sink_of_same hRead).1]
    exact hSound
  · rw [(sink_of_other hRead).1]
    cases hMade : madeFor? f.tree (f.pathOf u) with
    | none =>
      obtain ⟨error, hStored⟩ := store_of_not_made hMade u.content
      rw [hStored]
      exact hSound
    | some made =>
      rw [store_of_made hMade]
      exact writeAtomic_isSound (madeFor?_sameBut hSound hMade).1 _ _

theorem foldl_sink_isSound (hSound : f.tree.IsSound) (units : List SourceUnit) :
    (units.foldl (fun f u => (sink f u).1) f).tree.IsSound := by
  induction units generalizing f with
  | nil => exact hSound
  | cons u rest ih => exact ih (sink_isSound hSound u)

theorem keepsFiles_iff (hSound : f.tree.IsSound) (u : SourceUnit) :
    f.KeepsFiles u ↔ f.tree.readText? (f.pathOf u) = some u.content ∨
      ∀ made, madeFor? f.tree (f.pathOf u) = some made → ClearsUp made (f.pathOf u) u.content := by
  unfold KeepsFiles
  by_cases hRead : f.tree.readText? (f.pathOf u) = some u.content
  · obtain ⟨hTree, hResult⟩ := sink_of_same hRead
    rw [hResult]
    exact ⟨fun _ => .inl hRead, fun _ => ⟨rfl, hTree, hRead⟩⟩
  obtain ⟨hTree, hResult⟩ := sink_of_other hRead
  rw [hResult, hTree, or_iff_right hRead]
  cases hMade : madeFor? f.tree (f.pathOf u) with
  | none =>
    obtain ⟨error, hStored⟩ := store_of_not_made hMade u.content
    rw [hStored]
    refine ⟨fun _ made hMade' => ?_, fun _ => sameBut_refl [] _⟩
    cases hMade'
  | some made =>
    obtain ⟨hSound', hSame⟩ := madeFor?_sameBut hSound hMade
    rw [store_of_made hMade]
    have hExact : LeavesNoTrace f.tree made (f.pathOf u) u.content
        (writeAtomic made (f.pathOf u) u.content) ↔ ClearsUp made (f.pathOf u) u.content :=
      leavesNoTrace_iff hSound' hSame
    simp only [Option.some.injEq, forall_eq']
    rw [← hExact]
    cases writeAtomic made (f.pathOf u) u.content with
    | mk after result =>
      cases result with
      | error e => rfl
      | ok done => simp [Except.map, LeavesNoTrace, hMade]

/-- The places that storing a unit can change, other than by making directories. -/
def touchedBy (f : OutputFolder) (u : SourceUnit) : List Location :=
  (madeFor? f.tree (f.pathOf u)).elim [] fun made => touched made (f.pathOf u)

theorem sink_sameBut (hSound : f.tree.IsSound) (u : SourceUnit) :
    SameBut (f.touchedBy u) f.tree (sink f u).1.tree := by
  by_cases hRead : f.tree.readText? (f.pathOf u) = some u.content
  · rw [(sink_of_same hRead).1]
    exact sameBut_refl _ _
  rw [(sink_of_other hRead).1, touchedBy]
  cases hMade : madeFor? f.tree (f.pathOf u) with
  | none =>
    obtain ⟨error, hStored⟩ := store_of_not_made hMade u.content
    rw [hStored]
    exact sameBut_refl _ _
  | some made =>
    obtain ⟨hSound', hSame⟩ := madeFor?_sameBut hSound hMade
    rw [store_of_made hMade]
    exact (hSame.mono (List.nil_subset _)).trans (writeAtomic_sameBut hSound' _ _)

/-- Files are kept exactly if what is written under the other name is cleared up, and whatever
happens nothing changes but what the path and the other name stand for.  The folder stays sound, unit
after unit. -/
theorem sink_leavesNoTrace (f : OutputFolder) (hSound : f.tree.IsSound) :
    (∀ path content,
      (LeavesNoTrace f.tree f.tree path content (writeAtomic f.tree path content) ↔
        ClearsUp f.tree path content) ∧
      SameBut (touched f.tree path) f.tree (writeAtomic f.tree path content).1) ∧
    (∀ u, (sink f u).1.tree.IsSound ∧
      (f.KeepsFiles u ↔ f.tree.readText? (f.pathOf u) = some u.content ∨
        ∀ made, madeFor? f.tree (f.pathOf u) = some made →
          ClearsUp made (f.pathOf u) u.content) ∧
      SameBut (f.touchedBy u) f.tree (sink f u).1.tree) ∧
    ∀ units : List SourceUnit, (units.foldl (fun f u => (sink f u).1) f).tree.IsSound :=
  ⟨fun path content => ⟨leavesNoTrace_iff hSound (sameBut_refl [] _),
      writeAtomic_sameBut hSound path content⟩,
    fun u => ⟨sink_isSound hSound u, keepsFiles_iff hSound u, sink_sameBut hSound u⟩,
    foldl_sink_isSound hSound⟩

def docsUnit : SourceUnit where
  modulePath := ["net"]
  name := "DocsApiImpl"
  fileName := "docs_api_impl.rs"
  content := "pub struct DocsApiImpl;"
  origin := "src/net.rs"

def newFolder : OutputFolder where
  tree := fresh ["work"]
  directory := "out"
  cargoDirectives := false
  printed := []

theorem newFolder_leavesNoTrace : newFolder.tree.IsSound ∧ newFolder.KeepsFiles docsUnit := by
  have hSound : newFolder.tree.IsSound := fresh_isSound ["work"]
  refine ⟨hSound, ((sink_leavesNoTrace newFolder hSound).2.1 docsUnit).2.1.mpr (.inr ?_)⟩
  intro made hMade
  have hTree : madeFor? newFolder.tree (newFolder.pathOf docsUnit) = some
      { entries := [(["work"], .directory), (["work", "out"], .directory),
          (["work", "out", "net"], .directory)]
        working := ["work"] } := rfl
  cases hTree.symm.trans hMade
  intro _
  exact .inl ⟨⟨_, rfl, by decide⟩, _, rfl⟩

/-- A directory has the name of the unit's file. -/
def blockedFolder : OutputFolder :=
  { newFolder with
    tree := { entries := [(["work"], .directory), (["work", "out"], .directory),
                (["work", "out", "net"], .directory),
                (["work", "out", "net", "docs_api_impl.rs"], .directory)]
              working := ["work"] } }

/-- The move fails, and the other file stays. -/
theorem blockedFolder_leavesTrace :
    blockedFolder.tree.IsSound ∧ ¬blockedFolder.KeepsFiles docsUnit := by
  have hMade : makeAll? (fresh ["work"]) "out/net/docs_api_impl.rs" = some blockedFolder.tree := rfl
  have hSound : blockedFolder.tree.IsSound := ((fresh_isSound ["work"]).makeDirectories? hMade).1
  refine ⟨hSound, fun hKeeps => ?_⟩
  obtain hRead | hClears := (keepsFiles_iff hSound docsUnit).mp hKeeps
  · have hNone : blockedFolder.tree.readText? (blockedFolder.pathOf docsUnit) = none := rfl
    cases hNone.symm.trans hRead
  · have hWritten : CanWrite blockedFolder.tree
        (temporary (blockedFolder.pathOf docsUnit)) := ⟨_, rfl, fun e he => by cases he⟩
    obtain ⟨⟨r, hTarget, hReplaced⟩, -⟩ | ⟨-, hRead⟩ := hClears blockedFolder.tree rfl hWritten
    · cases hTarget
      exact hReplaced rfl
    · have hNone : blockedFolder.tree.readText?
          (temporary (blockedFolder.pathOf docsUnit)) = none := rfl
      cases hNone.symm.trans hRead

end OutputFolder
end TraitClient
