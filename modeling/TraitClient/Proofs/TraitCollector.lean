import Mathlib.Data.List.Induction
import TraitClient.Proofs.FileOrder

/-!
# Collecting traits with stacks

Instead of passing the module and its imports down, a collector walks through the files with one
state.  It enters and leaves modules and scopes by two stacks, and a trait only notes the number of
the scope that it is in.  What it collects is the index, and it leaves whatever it enters.
-/
namespace TraitClient.Extraction

open Source (Item TraitDeclaration)

/-- A trait as it is found; its imports are in the scope of that number. -/
structure FoundTrait where
  declaration : TraitDeclaration
  file : String
  modulePath : List String
  scope : Nat

structure Collector where
  file : String
  modulePath : List String
  /-- The numbers of the scopes that are open, the innermost last. -/
  scopeStack : List Nat
  scopes : List Imports
  traits : List FoundTrait
  modules : List (List String)

namespace Collector

def new : Collector :=
  { file := "", modulePath := [], scopeStack := [], scopes := [], traits := [], modules := [] }

def enterScope (c : Collector) (items : List Item) : Collector :=
  { c with
    scopes := c.scopes ++ [.ofItems items]
    scopeStack := c.scopeStack ++ [c.scopes.length] }

def leaveScope (c : Collector) : Collector := { c with scopeStack := c.scopeStack.dropLast }

def enterModule (c : Collector) (name : String) : Collector :=
  { c with
    modulePath := c.modulePath ++ [name]
    modules := c.modules ++ [c.modulePath ++ [name]] }

def leaveModule (c : Collector) : Collector := { c with modulePath := c.modulePath.dropLast }

def note (c : Collector) (declaration : TraitDeclaration) : Collector :=
  { c with
    traits := c.traits ++ [{ declaration, file := c.file, modulePath := c.modulePath,
                             scope := c.scopeStack.getLast?.getD 0 }] }

mutual

def visitItem (c : Collector) : Item → Collector
  | .use _ _ => c
  | .other => c
  | .trait declaration => c.note declaration
  | .module name none => (c.enterModule name).leaveModule
  | .module name (some items) =>
    (visitItems ((c.enterModule name).enterScope items) items).leaveScope.leaveModule

def visitItems (c : Collector) : List Item → Collector
  | [] => c
  | item :: items => visitItems (visitItem c item) items

end

def openFile (c : Collector) (f : SourceFile) : Collector :=
  { c with
    file := f.path
    modulePath := f.modulePath
    modules := c.modules ++
      (List.range (f.modulePath.length + 1)).map fun depth => f.modulePath.take depth }.enterScope
    f.items

def visitFile (c : Collector) (f : SourceFile) : Collector :=
  (visitItems (c.openFile f) f.items).leaveScope

def visitFiles (files : List SourceFile) : Collector := files.foldl visitFile new

/-- The entry of a trait that was found, if there is a scope of its number. -/
def resolved? (c : Collector) (t : FoundTrait) : Option TraitEntry :=
  c.scopes[t.scope]?.map fun imports =>
    { declaration := t.declaration, file := t.file, modulePath := t.modulePath, imports }

/-! ## Where the collector is, and what it has -/

structure Returns (c c' : Collector) : Prop where
  file : c'.file = c.file
  modulePath : c'.modulePath = c.modulePath
  scopeStack : c'.scopeStack = c.scopeStack

/-- Only these traits and modules have been added, the traits with scopes for their numbers. -/
structure Adds (c c' : Collector) (found : TraitIndex) : Prop where
  scopes : c.scopes <+: c'.scopes
  traits : ∃ more, c'.traits = c.traits ++ more ∧ more.map c'.resolved? = found.traits.map some
  modules : c'.modules = c.modules ++ found.modules

def InScope (c : Collector) (imports : Imports) : Prop :=
  ∃ n, c.scopeStack.getLast? = some n ∧ c.scopes[n]? = some imports

variable {c c' c'' : Collector} {found more : TraitIndex} {imports : Imports}

theorem Returns.trans (h : Returns c c') (h' : Returns c' c'') : Returns c c'' :=
  ⟨h'.file.trans h.file, h'.modulePath.trans h.modulePath, h'.scopeStack.trans h.scopeStack⟩

theorem InScope.keeps (h : c.InScope imports) (hReturns : Returns c c') (hAdds : Adds c c' found) :
    c'.InScope imports := by
  obtain ⟨n, hLast, hScope⟩ := h
  refine ⟨n, hReturns.scopeStack ▸ hLast, ?_⟩
  obtain ⟨after, hAfter⟩ := hAdds.scopes
  rw [← hAfter, List.getElem?_append_left (List.getElem?_eq_some_iff.mp hScope).1, hScope]

theorem resolved?_of_prefix {t : FoundTrait} {e : TraitEntry} (hScopes : c.scopes <+: c'.scopes)
    (h : c.resolved? t = some e) : c'.resolved? t = some e := by
  obtain ⟨imports, hScope, rfl⟩ := Option.map_eq_some_iff.mp h
  obtain ⟨after, hAfter⟩ := hScopes
  have hBound := (List.getElem?_eq_some_iff.mp hScope).1
  rw [resolved?, ← hAfter, List.getElem?_append_left hBound, hScope]
  rfl

theorem map_resolved?_of_prefix {ts : List FoundTrait} {es : List TraitEntry}
    (hScopes : c.scopes <+: c'.scopes) (h : ts.map c.resolved? = es.map some) :
    ts.map c'.resolved? = es.map some := by
  rw [← h]
  refine List.map_congr_left fun t ht => ?_
  have hMem : c.resolved? t ∈ es.map some := h ▸ List.mem_map_of_mem ht
  obtain ⟨e, -, hEntry⟩ := List.mem_map.mp hMem
  rw [← hEntry, resolved?_of_prefix hScopes hEntry.symm]

theorem Adds.nothing (c : Collector) : Adds c c .empty :=
  ⟨List.prefix_refl _, ⟨[], (List.append_nil _).symm, rfl⟩, (List.append_nil _).symm⟩

theorem Adds.trans (h : Adds c c' found) (h' : Adds c' c'' more) : Adds c c'' (found ++ more) := by
  obtain ⟨new, hNew, hEntries⟩ := h.traits
  obtain ⟨new', hNew', hEntries'⟩ := h'.traits
  refine ⟨h.scopes.trans h'.scopes, ⟨new ++ new', ?_, ?_⟩, ?_⟩
  · rw [hNew', hNew, List.append_assoc]
  · rw [List.map_append, map_resolved?_of_prefix h'.scopes hEntries, hEntries', ← List.map_append]
    rfl
  · rw [h'.modules, h.modules, List.append_assoc]
    rfl

/-! ## The walk -/

mutual

theorem visitItem_collects (item : Item) (c : Collector) (imports : Imports)
    (h : c.InScope imports) : Returns c (c.visitItem item) ∧
      Adds c (c.visitItem item) (TraitIndex.ofItem c.file c.modulePath imports item) := by
  cases item with
  | use leadingColon tree => exact ⟨⟨rfl, rfl, rfl⟩, .nothing c⟩
  | other => exact ⟨⟨rfl, rfl, rfl⟩, .nothing c⟩
  | trait declaration =>
    obtain ⟨n, hLast, hScope⟩ := h
    refine ⟨⟨rfl, rfl, rfl⟩, List.prefix_refl _, ⟨_, rfl, ?_⟩, (List.append_nil _).symm⟩
    simp [visitItem, resolved?, note, TraitIndex.ofItem, hLast, hScope]
  | module name content =>
    cases content with
    | none =>
      refine ⟨⟨rfl, List.dropLast_concat, rfl⟩, List.prefix_refl _, ⟨[], ?_, rfl⟩, rfl⟩
      exact (List.append_nil _).symm
    | some items =>
      have hIn : ((c.enterModule name).enterScope items).InScope (.ofItems items) :=
        ⟨c.scopes.length, List.getLast?_concat, List.getElem?_concat_length⟩
      obtain ⟨hReturns, hAdds⟩ := visitItems_collects items _ _ hIn
      refine ⟨⟨hReturns.file, ?_, ?_⟩, (List.prefix_append _ _).trans hAdds.scopes, hAdds.traits,
        ?_⟩
      · exact (congrArg List.dropLast hReturns.modulePath).trans List.dropLast_concat
      · exact (congrArg List.dropLast hReturns.scopeStack).trans List.dropLast_concat
      · exact hAdds.modules.trans (List.append_assoc _ _ _)

theorem visitItems_collects (items : List Item) (c : Collector) (imports : Imports)
    (h : c.InScope imports) : Returns c (c.visitItems items) ∧
      Adds c (c.visitItems items) (TraitIndex.ofItemList c.file c.modulePath imports items) := by
  cases items with
  | nil => exact ⟨⟨rfl, rfl, rfl⟩, .nothing c⟩
  | cons item items =>
    obtain ⟨hReturns, hAdds⟩ := visitItem_collects item c imports h
    obtain ⟨hReturns', hAdds'⟩ :=
      visitItems_collects items (c.visitItem item) imports (h.keeps hReturns hAdds)
    rw [hReturns.file, hReturns.modulePath] at hAdds'
    exact ⟨hReturns.trans hReturns', hAdds.trans hAdds'⟩

end

theorem prefixes_eq (path : List String) : TraitIndex.prefixes path =
    (List.range (path.length + 1)).map fun depth => path.take depth := by
  induction path with
  | nil => rfl
  | cons name path ih =>
    have hRange : List.range (path.length + 1 + 1) =
        0 :: (List.range (path.length + 1)).map .succ := List.range_succ_eq_map
    rw [TraitIndex.prefixes, ih, List.length_cons, hRange, List.map_cons, List.map_map,
      List.map_map]
    rfl

/-- After a file its scope is closed and its module is still that of the file. -/
theorem visitFile_collects (c : Collector) (f : SourceFile) :
    Returns (c.openFile f) ((c.openFile f).visitItems f.items) ∧
      (c.visitFile f).scopeStack = c.scopeStack ∧ (c.visitFile f).modulePath = f.modulePath ∧
        Adds c (c.visitFile f) (TraitIndex.ofFile f) := by
  have hIn : (c.openFile f).InScope (.ofItems f.items) :=
    ⟨c.scopes.length, List.getLast?_concat, List.getElem?_concat_length⟩
  obtain ⟨hReturns, hAdds⟩ := visitItems_collects f.items _ _ hIn
  refine ⟨hReturns, ?_, hReturns.modulePath, (List.prefix_append _ _).trans hAdds.scopes,
    hAdds.traits, ?_⟩
  · exact (congrArg List.dropLast hReturns.scopeStack).trans List.dropLast_concat
  · refine hAdds.modules.trans ((List.append_assoc _ _ _).trans ?_)
    rw [← prefixes_eq]
    rfl

theorem visitFiles_collects (files : List SourceFile) :
    (visitFiles files).scopeStack = [] ∧
      Adds new (visitFiles files) (TraitIndex.ofFiles files) := by
  induction files using List.reverseRecOn with
  | nil => exact ⟨rfl, .nothing new⟩
  | append_singleton files f ih =>
    obtain ⟨-, hStack, -, hAdds⟩ := visitFile_collects (visitFiles files) f
    rw [visitFiles, TraitIndex.ofFiles, List.foldl_append, List.foldl_append]
    exact ⟨hStack.trans ih.1, ih.2.trans hAdds⟩

end Collector
end TraitClient.Extraction
