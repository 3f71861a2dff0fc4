import TraitClient.Proofs.ForeignPaths
import Mathlib.Logic.Function.Basic

/-!
# Use trees

Braces in a `use` item are a shorthand.  The imports of a scope are those of the paths that its
`use` trees write out, taken one after the other, so that paths may share a tree or stand in items
of their own.
-/
namespace TraitClient

open Source (UseTree Item)

/-- What a written out path is imported as: its last segment, another name, or all that is below. -/
inductive UseEnd
  | itself
  | as (localName : String)
  | glob
  deriving DecidableEq

structure UsePath where
  path : List String
  last : UseEnd
  deriving DecidableEq

def UsePath.below (segments : List String) (p : UsePath) : UsePath :=
  { p with path := segments ++ p.path }

/-- The segments of a name at the end of a tree, where `self` is the path that it ends. -/
def endSegments (name : String) : List String := if name = "self" then [] else [name]

mutual

def Source.UseTree.flatten : UseTree → List UsePath
  | .path first tree => tree.flatten.map (.below [first])
  | .group trees => Source.UseTree.flattenAll trees
  | .name last => [⟨endSegments last, .itself⟩]
  | .rename last localName => [⟨endSegments last, .as localName⟩]
  | .glob => [⟨[], .glob⟩]

def Source.UseTree.flattenAll : List UseTree → List UsePath
  | [] => []
  | tree :: trees => tree.flatten ++ Source.UseTree.flattenAll trees

end

def useTrees (items : List Item) : List UseTree :=
  items.filterMap fun item => match item with
    | .use _ tree => some tree
    | _ => none

/-! ## The imports as a map -/

/-- A map from local names to paths, and the paths whose names are all imported. -/
@[ext]
structure ImportTable where
  target? : String → Option (List String)
  globs : List (List String)

namespace ImportTable

def empty : ImportTable := ⟨fun _ => none, []⟩

def bind (table : ImportTable) (name : String) (target : List String) : ImportTable :=
  { table with target? := Function.update table.target? name (some target) }

/-- One more path.  A path without segments has no last one to be known by. -/
def take (table : ImportTable) (p : UsePath) : ImportTable :=
  match p.last with
  | .itself =>
    match p.path.getLast? with
    | some name => table.bind name p.path
    | none => table
  | .as localName => if localName = "_" then table else table.bind localName p.path
  | .glob => { table with globs := table.globs ++ [p.path] }

end ImportTable

namespace Imports

def table (imports : Imports) : ImportTable := ⟨imports.target?, imports.globs⟩

theorem table_add_binding (imports : Imports) (name : String) (target : List String) :
    (imports.add (.binding name target)).table = imports.table.bind name target := by
  apply ImportTable.ext
  · funext other
    by_cases hSame : other = name
    · subst hSame
      simp [table, ImportTable.bind, target?_add, leafTarget?]
    · simp [table, ImportTable.bind, target?_add, leafTarget?, hSame, Ne.symm hSame]
  · rfl

theorem table_add_glob (imports : Imports) (path : List String) :
    (imports.add (.glob path)).table =
      { imports.table with globs := imports.table.globs ++ [path] } := rfl

/-- What a collector has done at the end of a tree: it is back at its path, and has taken the paths
that the tree writes out, each below that path. -/
structure Collector.Collects (c c' : Collector) (found : List UsePath) : Prop where
  path : c'.path = c.path
  table : c'.imports.table = (found.map (.below c.path)).foldl .take c.imports.table

namespace Collector

theorem Collects.nothing (c : Collector) : Collects c c [] := ⟨rfl, rfl⟩

theorem Collects.append {c c' c'' : Collector} {found more : List UsePath}
    (h : Collects c c' found) (h' : Collects c' c'' more) : Collects c c'' (found ++ more) := by
  refine ⟨h'.path.trans h.path, ?_⟩
  rw [h'.table, h.table, h.path, List.map_append, List.foldl_append]

theorem Collects.below {c c' : Collector} {name : String} {found : List UsePath}
    (h : Collects (c.enter name) c' found) :
    Collects c c'.leave (found.map (.below [name])) := by
  refine ⟨(congrArg List.dropLast h.path).trans List.dropLast_concat, h.table.trans ?_⟩
  rw [List.map_map]
  congr 2
  funext p
  simp [UsePath.below, enter]

theorem collects_take {c : Collector} {leaf : ImportLeaf} {p : UsePath}
    (h : (c.imports.add leaf).table = c.imports.table.take (p.below c.path)) :
    Collects c (c.take leaf) [p] := ⟨rfl, h⟩

theorem collects_hidden {c : Collector} {p : UsePath}
    (h : c.imports.table.take (p.below c.path) = c.imports.table) : Collects c c [p] := ⟨rfl, h.symm⟩

mutual

theorem visit_collects (tree : UseTree) (c : Collector) :
    Collects c (c.visit tree) tree.flatten := by
  match tree with
  | .path name tree =>
    rw [visit, UseTree.flatten]
    exact (visit_collects tree (c.enter name)).below
  | .group trees =>
    rw [visit, UseTree.flatten]
    exact visitAll_collects trees c
  | .name name =>
    rw [visit, UseTree.flatten]
    by_cases hSelf : name = "self"
    · rw [if_pos (by simpa using hSelf)]
      cases hLast : c.path.getLast? with
      | none =>
        refine collects_hidden ?_
        simp [hSelf, hLast, endSegments, UsePath.below, ImportTable.take]
      | some last =>
        refine collects_take ((table_add_binding _ _ _).trans ?_)
        simp [hSelf, hLast, endSegments, UsePath.below, ImportTable.take]
    · rw [if_neg (by simpa using hSelf)]
      refine collects_take ((table_add_binding _ _ _).trans ?_)
      simp [hSelf, endSegments, UsePath.below, ImportTable.take]
  | .rename name localName =>
    rw [visit, UseTree.flatten]
    by_cases hHidden : localName = "_"
    · rw [if_pos (by simpa using hHidden)]
      exact collects_hidden (by simp [hHidden, UsePath.below, ImportTable.take])
    · rw [if_neg (by simpa using hHidden)]
      refine collects_take ((table_add_binding _ _ _).trans ?_)
      by_cases hSelf : name = "self" <;>
        simp [hHidden, hSelf, endSegments, UsePath.below, ImportTable.take]
  | .glob =>
    refine collects_take ((table_add_glob _ _).trans ?_)
    simp [UsePath.below, ImportTable.take]

theorem visitAll_collects (trees : List UseTree) (c : Collector) :
    Collects c (c.visitAll trees) (UseTree.flattenAll trees) := by
  match trees with
  | [] => exact .nothing c
  | tree :: trees =>
    rw [visitAll, UseTree.flattenAll]
    exact (visit_collects tree c).append (visitAll_collects trees (c.visit tree))

end

end Collector

theorem table_ofItems (items : List Item) :
    (ofItems items).table = (UseTree.flattenAll (useTrees items)).foldl .take .empty := by
  have hFrom (imports : Imports) : (items.foldl addItem imports).table =
      (UseTree.flattenAll (useTrees items)).foldl .take imports.table := by
    induction items generalizing imports with
    | nil => rfl
    | cons item items ih =>
      rw [List.foldl_cons, ih]
      cases item with
      | use leadingColon tree =>
        have hBelow : (UsePath.below []) = id := rfl
        rw [addItem, (Collector.visit_collects tree _).table, hBelow, List.map_id]
        exact List.foldl_append.symm
      | module | trait | other => rfl
  exact hFrom empty

theorem candidates_of_table {a b : Imports} (h : a.table = b.table) :
    a.candidates = b.candidates := by
  have hTarget : a.target? = b.target? := congrArg ImportTable.target? h
  have hGlobs : a.globs = b.globs := congrArg ImportTable.globs h
  funext segments leadingColon
  cases segments with
  | nil => rfl
  | cons first others => rw [candidates, candidates, hTarget, hGlobs]

theorem qualify_of_table {a b : Imports} (h : a.table = b.table) : a.qualify = b.qualify := by
  have hTarget : a.target? = b.target? := congrArg ImportTable.target? h
  funext segments leadingColon
  cases segments with
  | nil => rfl
  | cons first others => simp only [qualify, hTarget]

/-! ## Types

A type is resolved through the full names of its paths alone. -/

section

open Source (TypeExpr TypeSegment TypeArgument TypeArguments Tokens)

variable {a b : Imports}

theorem pathType_congr (h : a.qualify = b.qualify) (tokens : Tokens) (leadingColon : Bool)
    (segments : List String) (arguments : List TypeRef) :
    a.pathType tokens leadingColon segments arguments =
      b.pathType tokens leadingColon segments arguments := by
  unfold pathType
  rw [h]

mutual

theorem resolve_congr (h : a.qualify = b.qualify) (t : TypeExpr) : a.resolve t = b.resolve t := by
  match t with
  | .paren _ inner => rw [resolve, resolve, resolve_congr h inner]
  | .reference _ _ _ target =>
    by_cases hSlice : ∃ tokens element, target = .slice tokens element
    · obtain ⟨_, element, rfl⟩ := hSlice
      rw [resolve, resolve, resolve_congr h element]
    · have hTarget : ∀ tokens element, target ≠ .slice tokens element := by simpa using hSlice
      rw [resolve_reference hTarget, resolve_reference hTarget, resolve_congr h target]
  | .path tokens leadingColon segments =>
    simp only [resolve, resolveLast_congr h tokens segments, pathType_congr h]
  | .unit | .slice .. | .other _ => rw [resolve, resolve]

theorem resolveLast_congr (h : a.qualify = b.qualify) (tokens : Tokens)
    (segments : List TypeSegment) :
    a.resolveLast tokens segments = b.resolveLast tokens segments := by
  match segments with
  | [] => rw [resolveLast, resolveLast]
  | [s] => rw [resolveLast, resolveLast, resolveSegment_congr h tokens s]
  | _ :: s :: rest => rw [resolveLast, resolveLast, resolveLast_congr h tokens (s :: rest)]

theorem resolveSegment_congr (h : a.qualify = b.qualify) (tokens : Tokens) (s : TypeSegment) :
    a.resolveSegment tokens s = b.resolveSegment tokens s := by
  match s with
  | .mk _ arguments =>
    rw [resolveSegment, resolveSegment, resolveArguments_congr h tokens arguments]

theorem resolveArguments_congr (h : a.qualify = b.qualify) (tokens : Tokens)
    (arguments : TypeArguments) :
    a.resolveArguments tokens arguments = b.resolveArguments tokens arguments := by
  match arguments with
  | .angle arguments =>
    rw [resolveArguments, resolveArguments, resolveEach_congr h tokens arguments]
  | .none | .parenthesized => rw [resolveArguments, resolveArguments]

theorem resolveEach_congr (h : a.qualify = b.qualify) (tokens : Tokens)
    (arguments : List TypeArgument) :
    a.resolveEach tokens arguments = b.resolveEach tokens arguments := by
  match arguments with
  | [] => rw [resolveEach, resolveEach]
  | argument :: rest =>
    rw [resolveEach, resolveEach, resolveArgument_congr h tokens argument,
      resolveEach_congr h tokens rest]

theorem resolveArgument_congr (h : a.qualify = b.qualify) (tokens : Tokens)
    (argument : TypeArgument) :
    a.resolveArgument tokens argument = b.resolveArgument tokens argument := by
  match argument with
  | .type t => rw [resolveArgument, resolveArgument, resolve_congr h t]
  | .lifetime _ | .other => rw [resolveArgument, resolveArgument]

end

end

end Imports

/-! ## Trees that share their paths in another way -/

/-- Lists of `use` trees that differ only in which paths share braces or an item.  `self` in braces
is the path in front of them. -/
inductive Regrouped : List UseTree → List UseTree → Prop
  | refl {trees : List UseTree} : Regrouped trees trees
  | symm {trees trees' : List UseTree} (h : Regrouped trees trees') : Regrouped trees' trees
  | trans {trees trees' trees'' : List UseTree} (h : Regrouped trees trees')
      (h' : Regrouped trees' trees'') : Regrouped trees trees''
  | append {trees trees' more more' : List UseTree} (h : Regrouped trees trees')
      (h' : Regrouped more more') : Regrouped (trees ++ more) (trees' ++ more')
  | braces {trees : List UseTree} : Regrouped [.group trees] trees
  | share {name : String} {trees : List UseTree} :
    Regrouped [.path name (.group trees)] (trees.map (.path name))
  | inside {name : String} {tree tree' : UseTree} (h : Regrouped [tree] [tree']) :
    Regrouped [.path name tree] [.path name tree']
  | self {name : String} (h : name ≠ "self") : Regrouped [.name name] [.path name (.name "self")]
  | renameSelf {name localName : String} (h : name ≠ "self") :
    Regrouped [.rename name localName] [.path name (.rename "self" localName)]

def UsePath.tree (p : UsePath) : UseTree :=
  p.path.foldr .path <| match p.last with
    | .itself => .name "self"
    | .as localName => .rename "self" localName
    | .glob => .glob

theorem flattenAll_append (trees trees' : List UseTree) :
    UseTree.flattenAll (trees ++ trees') =
      UseTree.flattenAll trees ++ UseTree.flattenAll trees' := by
  induction trees with
  | nil => rfl
  | cons tree trees ih =>
    rw [List.cons_append, UseTree.flattenAll, UseTree.flattenAll, ih, List.append_assoc]

theorem flattenAll_singleton (tree : UseTree) : UseTree.flattenAll [tree] = tree.flatten :=
  List.append_nil _

theorem flattenAll_map_path (name : String) (trees : List UseTree) :
    UseTree.flattenAll (trees.map (.path name)) =
      (UseTree.flattenAll trees).map (.below [name]) := by
  induction trees with
  | nil => rfl
  | cons tree trees ih =>
    rw [List.map_cons, UseTree.flattenAll, UseTree.flattenAll, UseTree.flatten, ih,
      List.map_append]

namespace Regrouped

theorem flattenAll_eq {trees trees' : List UseTree} (h : Regrouped trees trees') :
    UseTree.flattenAll trees = UseTree.flattenAll trees' := by
  induction h with
  | refl => rfl
  | symm _ ih => exact ih.symm
  | trans _ _ ih ih' => exact ih.trans ih'
  | append _ _ ih ih' => rw [flattenAll_append, flattenAll_append, ih, ih']
  | braces => rw [flattenAll_singleton, UseTree.flatten]
  | share => rw [flattenAll_singleton, UseTree.flatten, UseTree.flatten, flattenAll_map_path]
  | inside _ ih =>
    rw [flattenAll_singleton, flattenAll_singleton] at ih ⊢
    rw [UseTree.flatten, UseTree.flatten, ih]
  | self h | renameSelf h =>
    simp [UseTree.flattenAll, UseTree.flatten, endSegments, UsePath.below, h]

theorem group {trees trees' : List UseTree} (h : Regrouped trees trees') :
    Regrouped [.group trees] [.group trees'] := .trans .braces (.trans h (.symm .braces))

/-- A tree under a segment may be split wherever the tree itself may be. -/
theorem split {name : String} {tree : UseTree} {trees : List UseTree} (h : Regrouped [tree] trees) :
    Regrouped [.path name tree] (trees.map (.path name)) :=
  have hBraced : Regrouped [tree] [.group trees] := .trans h (.symm .braces)
  .trans (.inside hBraced) .share

mutual

theorem flatten_tree (tree : UseTree) : Regrouped [tree] (tree.flatten.map (·.tree)) := by
  match tree with
  | .path name tree =>
    have hSplit : Regrouped [.path name tree] ((tree.flatten.map (·.tree)).map (.path name)) :=
      split (flatten_tree tree)
    rw [UseTree.flatten, List.map_map]
    rwa [List.map_map] at hSplit
  | .group trees => exact .trans .braces (flattenAll_trees trees)
  | .name name =>
    by_cases hSelf : name = "self"
    · subst hSelf
      exact .refl
    · simpa [UseTree.flatten, endSegments, hSelf] using .self hSelf
  | .rename name localName =>
    by_cases hSelf : name = "self"
    · subst hSelf
      exact .refl
    · simpa [UseTree.flatten, endSegments, hSelf] using .renameSelf hSelf
  | .glob => exact .refl

theorem flattenAll_trees (trees : List UseTree) :
    Regrouped trees ((UseTree.flattenAll trees).map (·.tree)) := by
  match trees with
  | [] => exact .refl
  | tree :: trees =>
    rw [UseTree.flattenAll, List.map_append]
    exact .append (flatten_tree tree) (flattenAll_trees trees)

end

/-- Trees are regrouped exactly if they write out the same paths in the same order. -/
theorem iff_flattenAll_eq {trees trees' : List UseTree} :
    Regrouped trees trees' ↔ UseTree.flattenAll trees = UseTree.flattenAll trees' := by
  constructor
  · exact flattenAll_eq
  · intro hSame
    have hTrees' := flattenAll_trees trees'
    rw [← hSame] at hTrees'
    exact .trans (flattenAll_trees trees) (.symm hTrees')

end Regrouped

/-- The imports of a scope are those of the paths that its trees write out, one after the other;
what a path stands for and what a type is resolved to do not depend on how the trees share them.
Wherever a collector is, it takes from a tree the paths that the tree writes out, each below the path
above the tree, and comes back to that path. -/
theorem useTrees_flattened (items : List Item) :
    (Imports.ofItems items).table =
        (UseTree.flattenAll (useTrees items)).foldl .take .empty ∧
      (∀ (c : Imports.Collector) (tree : UseTree), (c.visit tree).path = c.path ∧
        (c.visit tree).imports.table =
          (tree.flatten.map (.below c.path)).foldl .take c.imports.table) ∧
      ∀ items' : List Item, Regrouped (useTrees items) (useTrees items') →
        (∀ (segments : List String) (leadingColon : Bool),
          (Imports.ofItems items').candidates segments leadingColon =
              (Imports.ofItems items).candidates segments leadingColon ∧
            (Imports.ofItems items').qualify segments leadingColon =
              (Imports.ofItems items).qualify segments leadingColon) ∧
        ∀ type : Source.TypeExpr,
          (Imports.ofItems items').resolve type = (Imports.ofItems items).resolve type := by
  refine ⟨Imports.table_ofItems items, fun c tree => ?_, fun items' hRegrouped => ?_⟩
  · have hCollects := Imports.Collector.visit_collects tree c
    exact ⟨hCollects.path, hCollects.table⟩
  · have hTable : (Imports.ofItems items').table = (Imports.ofItems items).table := by
      rw [Imports.table_ofItems, Imports.table_ofItems, hRegrouped.flattenAll_eq]
    have hQualify := Imports.qualify_of_table hTable
    constructor
    · intro segments leadingColon
      have hCandidates := congrFun₂ (Imports.candidates_of_table hTable) segments leadingColon
      exact ⟨hCandidates, congrFun₂ hQualify segments leadingColon⟩
    · intro type
      exact Imports.resolve_congr hQualify type

/-- `use std::{fmt::{self, Display as Show}, io::*};` -/
def nestedUses : List Item :=
  [.use false (.path "std" (.group
    [.path "fmt" (.group [.name "self", .rename "Display" "Show"]), .path "io" .glob]))]

/-- `use std::fmt;` and `use std::{fmt::Display as Show, io::*};` -/
def splitUses : List Item :=
  [.use false (.path "std" (.name "fmt")),
    .use false (.path "std" (.group [.path "fmt" (.rename "Display" "Show"), .path "io" .glob]))]

theorem nestedUses_flattened :
    Regrouped (useTrees nestedUses) (useTrees splitUses) ∧
      (∀ (segments : List String) (leadingColon : Bool),
        (Imports.ofItems splitUses).candidates segments leadingColon =
            (Imports.ofItems nestedUses).candidates segments leadingColon ∧
          (Imports.ofItems splitUses).qualify segments leadingColon =
            (Imports.ofItems nestedUses).qualify segments leadingColon) ∧
      ∀ type : Source.TypeExpr,
        (Imports.ofItems splitUses).resolve type = (Imports.ofItems nestedUses).resolve type := by
  have hRegrouped : Regrouped (useTrees nestedUses) (useTrees splitUses) :=
    Regrouped.iff_flattenAll_eq.mpr (by decide +kernel)
  exact ⟨hRegrouped, (useTrees_flattened nestedUses).2.2 splitUses hRegrouped⟩

end TraitClient
