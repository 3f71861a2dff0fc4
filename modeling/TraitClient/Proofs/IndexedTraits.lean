import Mathlib.Data.List.Induction
import Mathlib.Data.List.Sort
import TraitClient.Proofs.ItemKinds
import TraitClient.Proofs.ModuleFiles
import TraitClient.Proofs.TraitCollector

/-!
# The traits of the index

An item has an address: its number in its module, behind the numbers of the modules that it is in
and of its file.  The order of addresses is the order of the files, then of the source.  The index
has the traits of all addresses in this order, each with the names and the imports on the way to it.
-/
namespace TraitClient

open Extraction (TraitIndex TraitEntry Collector)
open Extraction.TraitIndex (ofItem ofItemList ofFile ofFiles)
open Source (Item TraitDeclaration)

/-! ## Addresses -/

/-- An item at an address, with the names of the modules that it is in and all items of the
innermost one. -/
inductive ItemAt : List Item → List Nat → List String → List Item → Item → Prop
  | here {items : List Item} {n : Nat} {item : Item} (h : items[n]? = some item) :
    ItemAt items [n] [] items item
  | inside {items content scope : List Item} {n : Nat} {name : String} {address : List Nat}
      {names : List String} {item : Item} (hModule : items[n]? = some (.module name (some content)))
      (h : ItemAt content address names scope item) :
    ItemAt items (n :: address) (name :: names) scope item

variable {items scope scope' : List Item} {address : List Nat} {names names' : List String}
  {item item' : Item}

theorem ItemAt.ne_nil (h : ItemAt items address names scope item) : address ≠ [] := by
  cases h <;> simp

theorem ItemAt.exists_mem (h : ItemAt items address names scope item) : ∃ first, first ∈ items := by
  cases h with
  | here h => exact ⟨_, List.mem_of_getElem? h⟩
  | inside hModule => exact ⟨_, List.mem_of_getElem? hModule⟩

theorem ItemAt.unique (h : ItemAt items address names scope item)
    (h' : ItemAt items address names' scope' item') :
    names = names' ∧ scope = scope' ∧ item = item' := by
  induction h generalizing names' scope' with
  | here h =>
    cases h' with
    | here h' => exact ⟨rfl, rfl, Option.some_inj.mp (h.symm.trans h')⟩
    | inside _ h' => exact absurd rfl h'.ne_nil
  | inside hModule h ih =>
    cases h' with
    | here => exact absurd rfl h.ne_nil
    | inside hModule' h' =>
      cases hModule.symm.trans hModule'
      obtain ⟨rfl, hRest⟩ := ih h'
      exact ⟨rfl, hRest⟩

theorem ItemAt.holds (h : ItemAt items address names scope item) : Holds items names item := by
  induction h with
  | here h => exact .here (List.mem_of_getElem? h)
  | inside hModule _ ih => exact .inside (List.mem_of_getElem? hModule) ih

/-- Each item of a parsed file was read as an item, wherever it is. -/
theorem ItemAt.isRead (h : ItemAt items address names scope item) {tokens : Source.Tokens}
    (hItems : Source.Parser.AreRead tokens items) : Source.Parser.IsRead tokens item := by
  induction h with
  | here h => exact hItems.isRead (List.mem_of_getElem? h)
  | inside hModule h ih =>
    have hRead := hItems.isRead (List.mem_of_getElem? hModule)
    obtain ⟨first, hFirst⟩ := h.exists_mem
    exact ih (hRead.content hFirst)

/-! ## Lists in the order of addresses -/

section Lists

variable {α β : Type}

/-- All that is at some address, in the order of the addresses. -/
def Lists (At : List Nat → α → Prop) (as : List α) : Prop :=
  ∃ addresses : List (List Nat), addresses.Pairwise (· < ·) ∧
    (∀ address, address ∈ addresses ↔ ∃ a, At address a) ∧ List.Forall₂ At addresses as

variable {At At' : List Nat → α → Prop} {as as' : List α}

theorem Lists.congr (h : Lists At as) (hSame : ∀ address a, At' address a ↔ At address a) :
    Lists At' as := by
  have hEqual : At' = At := funext fun address => funext fun a => propext (hSame address a)
  rwa [hEqual]

theorem Lists.unique (hAt : Relator.RightUnique At) (h : Lists At as) (h' : Lists At as') :
    as = as' := by
  obtain ⟨addresses, hSorted, hAll, hEach⟩ := h
  obtain ⟨addresses', hSorted', hAll', hEach'⟩ := h'
  obtain rfl : addresses = addresses' :=
    hSorted.eq_of_mem_iff hSorted' fun address => (hAll address).trans (hAll' address).symm
  exact List.right_unique_forall₂' hAt hEach hEach'

theorem Lists.empty (h : ∀ address a, ¬At address a) : Lists At [] :=
  ⟨[], .nil, fun address => by simpa using h address, .nil⟩

theorem Lists.single {a : α} : Lists (fun address b => address = [] ∧ b = a) [a] :=
  ⟨[[]], List.pairwise_singleton _ _, fun address => by simp, .cons ⟨rfl, rfl⟩ .nil⟩

theorem Lists.below (h : Lists At as) (n : Nat) :
    Lists (fun address a => ∃ rest, address = n :: rest ∧ At rest a) as := by
  obtain ⟨addresses, hSorted, hAll, hEach⟩ := h
  refine ⟨addresses.map (n :: ·), ?_, fun address => ?_, ?_⟩
  · refine List.pairwise_map.mpr (hSorted.imp fun hLess => ?_)
    exact List.cons_lt_cons_iff.mpr (.inr ⟨rfl, hLess⟩)
  · rw [List.mem_map]
    constructor
    · rintro ⟨rest, hRest, rfl⟩
      obtain ⟨a, ha⟩ := (hAll rest).mp hRest
      exact ⟨a, rest, rfl, ha⟩
    · rintro ⟨a, rest, rfl, ha⟩
      exact ⟨rest, (hAll rest).mpr ⟨a, ha⟩, rfl⟩
  · rw [List.forall₂_map_left_iff]
    exact hEach.imp fun rest a ha => ⟨rest, rfl, ha⟩

theorem Lists.append (h : Lists At as) (h' : Lists At' as')
    (hOrder : ∀ address a address' a', At address a → At' address' a' → address < address') :
    Lists (fun address a => At address a ∨ At' address a) (as ++ as') := by
  obtain ⟨addresses, hSorted, hAll, hEach⟩ := h
  obtain ⟨addresses', hSorted', hAll', hEach'⟩ := h'
  refine ⟨addresses ++ addresses', ?_, fun address => ?_, List.rel_append ?_ ?_⟩
  · refine List.pairwise_append.mpr ⟨hSorted, hSorted', fun address hMem address' hMem' => ?_⟩
    obtain ⟨a, ha⟩ := (hAll address).mp hMem
    obtain ⟨a', ha'⟩ := (hAll' address').mp hMem'
    exact hOrder address a address' a' ha ha'
  · rw [List.mem_append, hAll, hAll', ← exists_or]
  · exact hEach.imp fun _ _ => .inl
  · exact hEach'.imp fun _ _ => .inr

theorem Lists.flatMap {xs : List β} {Of : β → List Nat → α → Prop} {f : β → List α}
    (h : ∀ x ∈ xs, Lists (Of x) (f x)) :
    Lists (fun address a => ∃ n x rest, address = n :: rest ∧ xs[n]? = some x ∧ Of x rest a)
      (xs.flatMap f) := by
  induction xs using List.reverseRecOn with
  | nil => exact .empty (by simp)
  | append_singleton xs x ih =>
    have hFirst := ih fun y hy => h y (List.mem_append_left _ hy)
    have hLast := (h x (by simp)).below xs.length
    rw [List.flatMap_append, List.flatMap_singleton]
    refine (hFirst.append hLast ?_).congr fun address a => ⟨?_, ?_⟩
    · rintro _ _ _ _ ⟨n, y, rest, rfl, hy, -⟩ ⟨rest', rfl, -⟩
      exact List.cons_lt_cons_iff.mpr (.inl (List.getElem?_eq_some_iff.mp hy).1)
    · rintro ⟨n, y, rest, rfl, hy, ha⟩
      rw [List.getElem?_append] at hy
      split at hy
      · exact .inl ⟨n, y, rest, rfl, hy, ha⟩
      · rename_i hBound
        rw [List.getElem?_singleton] at hy
        split at hy
        · cases hy
          obtain rfl : n = xs.length := by omega
          exact .inr ⟨rest, rfl, ha⟩
        · cases hy
    · rintro (⟨n, y, rest, rfl, hy, ha⟩ | ⟨rest, rfl, ha⟩)
      · refine ⟨n, y, rest, rfl, ?_, ha⟩
        rw [List.getElem?_append_left (List.getElem?_eq_some_iff.mp hy).1, hy]
      · exact ⟨xs.length, x, rest, rfl, List.getElem?_concat_length, ha⟩

end Lists

/-! ## Traits -/

/-- A trait at an address, as it is recorded for a module: with the names on the way to it and the
imports of its own module alone. -/
def TraitAt (file : String) (modulePath : List String) (items : List Item) (address : List Nat)
    (e : TraitEntry) : Prop :=
  ∃ names scope declaration, ItemAt items address names scope (.trait declaration) ∧
    e = ⟨declaration, file, modulePath ++ names, .ofItems scope⟩

/-- A trait of the files.  Its address starts with the number of its file. -/
def TraitOf (files : List SourceFile) (address : List Nat) (e : TraitEntry) : Prop :=
  ∃ n f rest, address = n :: rest ∧ files[n]? = some f ∧ TraitAt f.path f.modulePath f.items rest e

theorem traitOf_unique (files : List SourceFile) : Relator.RightUnique (TraitOf files) := by
  rintro _ _ _ ⟨n, f, rest, rfl, hFile, names, scope, declaration, hItem, rfl⟩
    ⟨n', f', rest', hSame, hFile', names', scope', declaration', hItem', rfl⟩
  cases hSame
  cases hFile.symm.trans hFile'
  obtain ⟨rfl, rfl, hTrait⟩ := hItem.unique hItem'
  cases hTrait
  rfl

section

variable {file : String} {modulePath : List String} {imports : Imports} {e : TraitEntry}

inductive TraitIn (file : String) (modulePath : List String) (imports : Imports) :
    Item → List Nat → TraitEntry → Prop
  | trait (declaration : TraitDeclaration) : TraitIn file modulePath imports (.trait declaration) []
      ⟨declaration, file, modulePath, imports⟩
  | inside {name : String} {content : List Item} {address : List Nat} {e : TraitEntry}
    (h : TraitAt file (modulePath ++ [name]) content address e) :
    TraitIn file modulePath imports (.module name (some content)) address e

theorem traitAt_iff : TraitAt file modulePath items address e ↔
    ∃ n item rest, address = n :: rest ∧ items[n]? = some item ∧
      TraitIn file modulePath (.ofItems items) item rest e := by
  constructor
  · rintro ⟨names, scope, declaration, hItem, rfl⟩
    cases hItem with
    | here h =>
      rw [List.append_nil]
      exact ⟨_, _, [], rfl, h, .trait declaration⟩
    | @inside _ content _ _ name _ names _ hModule hItem =>
      have hNames : modulePath ++ name :: names = modulePath ++ [name] ++ names := by simp
      rw [hNames]
      exact ⟨_, _, _, rfl, hModule, .inside ⟨names, scope, declaration, hItem, rfl⟩⟩
  · rintro ⟨n, item, rest, rfl, hGet, hIn⟩
    cases hIn with
    | trait declaration =>
      exact ⟨[], items, declaration, .here hGet, by rw [List.append_nil]⟩
    | @inside name _ _ _ h =>
      obtain ⟨names, scope, declaration, hItem, rfl⟩ := h
      exact ⟨name :: names, scope, declaration, .inside hGet hItem, by simp⟩

end

theorem lists_of_each {file : String} {modulePath : List String} (h : ∀ item ∈ items,
      Lists (TraitIn file modulePath (.ofItems items) item)
        (ofItem file modulePath (.ofItems items) item).traits) :
    Lists (TraitAt file modulePath items)
      (ofItemList file modulePath (.ofItems items) items).traits := by
  rw [Extraction.TraitIndex.ofItemList_eq]
  exact (Lists.flatMap h).congr fun _ _ => traitAt_iff

mutual

theorem ofItem_lists (item : Item) (file : String) (modulePath : List String) (imports : Imports) :
    Lists (TraitIn file modulePath imports item) (ofItem file modulePath imports item).traits := by
  cases item with
  | use leadingColon tree => exact .empty fun _ _ h => by cases h
  | other => exact .empty fun _ _ h => by cases h
  | trait declaration =>
    refine Lists.single.congr fun address e => ⟨?_, ?_⟩
    · rintro ⟨⟩
      exact ⟨rfl, rfl⟩
    · rintro ⟨rfl, rfl⟩
      exact .trait declaration
  | module name content =>
    cases content with
    | none => exact .empty fun _ _ h => by cases h
    | some content =>
      have hContent := lists_of_each fun item hItem =>
        ofItems_lists content item hItem file (modulePath ++ [name]) (.ofItems content)
      refine hContent.congr fun address e => ⟨?_, .inside⟩
      rintro ⟨⟩
      assumption

theorem ofItems_lists (items : List Item) : ∀ item ∈ items, ∀ file modulePath imports,
    Lists (TraitIn file modulePath imports item) (ofItem file modulePath imports item).traits := by
  cases items with
  | nil => exact nofun
  | cons first items => exact List.forall_mem_cons.mpr ⟨ofItem_lists first, ofItems_lists items⟩

end

theorem ofFiles_lists (files : List SourceFile) : Lists (TraitOf files) (ofFiles files).traits := by
  rw [Extraction.TraitIndex.ofFiles_eq]
  refine Lists.flatMap fun f _ => ?_
  exact lists_of_each fun item hItem => ofItems_lists f.items item hItem _ _ _

/-! ## Modules -/

theorem mem_prefixes {path m : List String} :
    m ∈ Extraction.TraitIndex.prefixes path ↔ m <+: path := by
  rw [Collector.prefixes_eq, List.mem_map]
  constructor
  · rintro ⟨depth, -, rfl⟩
    exact List.take_prefix depth path
  · intro h
    exact ⟨m.length, List.mem_range.mpr (Nat.lt_succ_of_le h.length_le),
      (List.prefix_iff_eq_take.mp h).symm⟩

def ModuleAt (modulePath : List String) (items : List Item) (m : List String) : Prop :=
  ∃ address names scope name content,
    ItemAt items address names scope (.module name content) ∧ m = modulePath ++ names ++ [name]

theorem moduleAt_inside {modulePath m : List String} {name : String} {content : List Item}
    (hModule : .module name (some content) ∈ items)
    (h : ModuleAt (modulePath ++ [name]) content m) : ModuleAt modulePath items m := by
  obtain ⟨address, names, scope, inner, held, hItem, rfl⟩ := h
  obtain ⟨n, hGet⟩ := List.getElem?_of_mem hModule
  exact ⟨n :: address, name :: names, scope, inner, held, .inside hGet hItem, by simp⟩

mutual

theorem ofItem_modules (item : Item) (file : String) (modulePath : List String) (imports : Imports)
    {m : List String} (h : m ∈ (ofItem file modulePath imports item).modules) {items : List Item}
    (hItem : item ∈ items) : ModuleAt modulePath items m := by
  cases item with
  | use leadingColon tree => cases h
  | other => cases h
  | trait declaration => cases h
  | module name content =>
    have hHere : ModuleAt modulePath items (modulePath ++ [name]) := by
      obtain ⟨n, hGet⟩ := List.getElem?_of_mem hItem
      exact ⟨[n], [], items, name, content, .here hGet, by rw [List.append_nil]⟩
    cases content with
    | none =>
      rw [List.mem_singleton.mp h]
      exact hHere
    | some content =>
      rcases List.mem_cons.mp h with rfl | h
      · exact hHere
      · exact moduleAt_inside hItem (ofItemList_modules content _ _ _ h fun _ hMem => hMem)

theorem ofItemList_modules (items : List Item) (file : String) (modulePath : List String)
    (imports : Imports) {m : List String}
    (h : m ∈ (ofItemList file modulePath imports items).modules) {all : List Item}
    (hItems : ∀ item ∈ items, item ∈ all) : ModuleAt modulePath all m := by
  cases items with
  | nil => cases h
  | cons item items =>
    obtain ⟨hItem, hRest⟩ := List.forall_mem_cons.mp hItems
    rcases List.mem_append.mp h with h | h
    · exact ofItem_modules item file modulePath imports h hItem
    · exact ofItemList_modules items file modulePath imports h hRest

end

theorem mem_modules_iff (files : List SourceFile) (m : List String) :
    m ∈ (ofFiles files).modules ↔
      ∃ f ∈ files, m <+: f.modulePath ∨ ModuleAt f.modulePath f.items m := by
  constructor
  · intro h
    rw [Extraction.TraitIndex.ofFiles_eq] at h
    obtain ⟨f, hFile, h⟩ := List.mem_flatMap.mp h
    refine ⟨f, hFile, ?_⟩
    rcases List.mem_append.mp h with h | h
    · exact .inl (mem_prefixes.mp h)
    · exact .inr (ofItemList_modules f.items _ _ _ h fun _ hMem => hMem)
  · rintro ⟨f, hFile, hPrefix | ⟨address, names, scope, name, content, hItem, rfl⟩⟩
    · exact (Extraction.TraitIndex.mem_ofFiles hFile).2 m
        (List.mem_append_left _ (mem_prefixes.mpr hPrefix))
    · exact hItem.holds.module_indexed hFile

/-! ## The index -/

/-- What the index of some files has to be. -/
structure IndexesNameable (files : List SourceFile) : Prop where
  /-- The traits are the only list of all traits at addresses, in their order. -/
  traits : ∀ traits, Lists (TraitOf files) traits ↔ traits = (ofFiles files).traits
  modules : ∀ m, m ∈ (ofFiles files).modules ↔
    ∃ f ∈ files, m <+: f.modulePath ∨ ModuleAt f.modulePath f.items m
  /-- A collector with stacks finds the same, and comes back from each file. -/
  collected : (Collector.visitFiles files).traits.map (Collector.visitFiles files).resolved? =
      (ofFiles files).traits.map some ∧
    (Collector.visitFiles files).modules = (ofFiles files).modules
  returns : ∀ (c : Collector) (f : SourceFile),
    Collector.Returns (c.openFile f) ((c.openFile f).visitItems f.items) ∧
      (c.visitFile f).scopeStack = c.scopeStack ∧ (c.visitFile f).modulePath = f.modulePath
  /-- What is at an address was read as an item of its kind where items are read, and not in a
  body. -/
  read : ∀ f ∈ files, ∀ tokens, Source.parseItems? tokens = some f.items →
    ∀ address names scope item, ItemAt f.items address names scope item →
      Source.Parser.IsRead tokens item

theorem ofFiles_indexesNameable (files : List SourceFile) : IndexesNameable files where
  traits traits := by
    refine ⟨fun h => h.unique (traitOf_unique files) (ofFiles_lists files), ?_⟩
    rintro rfl
    exact ofFiles_lists files
  modules := mem_modules_iff files
  collected := by
    obtain ⟨-, -, ⟨found, hFound, hEntries⟩, hModules⟩ := Collector.visitFiles_collects files
    rw [hFound]
    exact ⟨hEntries, hModules⟩
  returns c f := by
    obtain ⟨hReturns, hStack, hModule, -⟩ := Collector.visitFile_collects c f
    exact ⟨hReturns, hStack, hModule⟩
  read f _ tokens hTokens address names scope item hItem :=
    hItem.isRead (Source.Parser.areRead_of_parseItems? hTokens)

end TraitClient
