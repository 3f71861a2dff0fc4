import TraitClient.Annotation.Imports

/-!
# Leaves of use trees

A collector of imports goes down a use tree and comes back to the path that it started from.  What it
has added then are the leaves of the tree, one after the other, each with the path above it.
-/
namespace TraitClient.Imports

open Source (UseTree Item)

mutual

def leaves (path : List String) : UseTree → List ImportLeaf
  | .path name tree => leaves (path ++ [name]) tree
  | .group trees => leavesOfAll path trees
  | .name name =>
    if name == "self" then
      match path.getLast? with
      | some last => [.binding last path]
      | none => []
    else [.binding name (path ++ [name])]
  | .rename name localName =>
    if localName == "_" then []
    else [.binding localName (if name == "self" then path else path ++ [name])]
  | .glob => [.glob path]

def leavesOfAll (path : List String) : List UseTree → List ImportLeaf
  | [] => []
  | tree :: trees => leaves path tree ++ leavesOfAll path trees

end

def leavesOf : Item → List ImportLeaf
  | .use _ tree => leaves [] tree
  | _ => []

namespace Collector

mutual

theorem visit_eq (tree : UseTree) (c : Collector) :
    c.visit tree = ⟨(leaves c.path tree).foldl add c.imports, c.path⟩ := by
  match tree with
  | .path name tree =>
    rw [visit, visit_eq tree, leave, leaves]
    exact congrArg (Collector.mk _) List.dropLast_concat
  | .group trees =>
    rw [visit, leaves]
    exact visitAll_eq trees c
  | .name name =>
    rw [visit, leaves]
    split
    · cases c.path.getLast? <;> rfl
    · rfl
  | .rename name localName =>
    rw [visit, leaves]
    split <;> rfl
  | .glob => rfl

theorem visitAll_eq (trees : List UseTree) (c : Collector) :
    c.visitAll trees = ⟨(leavesOfAll c.path trees).foldl add c.imports, c.path⟩ := by
  match trees with
  | [] => rfl
  | tree :: trees =>
    rw [visitAll, visitAll_eq trees, visit_eq tree, leavesOfAll, List.foldl_append]

end

end Collector

theorem addItem_eq (imports : Imports) (item : Item) :
    imports.addItem item = (leavesOf item).foldl add imports := by
  cases item with
  | use leadingColon tree => rw [addItem, leavesOf, Collector.visit_eq]
  | module | trait | other => rfl

theorem ofItems_eq (items : List Item) : ofItems items = (items.flatMap leavesOf).foldl add empty := by
  have hStep : addItem = fun imports item => (leavesOf item).foldl add imports :=
    funext fun imports => funext (addItem_eq imports)
  rw [ofItems, hStep, List.foldl_flatMap]

end TraitClient.Imports
