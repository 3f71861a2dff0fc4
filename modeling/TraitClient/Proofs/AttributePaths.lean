import TraitClient.Proofs.AttributeNames
import TraitClient.Proofs.BarePaths
import TraitClient.Proofs.ModuleFiles

/-!
# Paths of the attributes in parsed files

The attributes of a trait are written with names as the lexer takes them, at every depth of a file,
and an indexed trait has the imports of the items that it stands among.  So every full name that such
an attribute may have is written bare.
-/
namespace TraitClient

open Code (IsSegment)
open Source (Item Attribute)

/-! ## Attributes -/

namespace Source

/-- An attribute whose path is made of words as the lexer takes them; `unsafe` is one of them. -/
def Attribute.Lexed (a : Attribute) : Prop :=
  ∀ s ∈ a.path.segments, (Code.Word.ident s).isToken = true

def TraitsLexed (items : List Item) : Prop :=
  ∀ rest d, Holds items rest (.trait d) → ∀ a ∈ d.attributes, a.Lexed

theorem traitsLexed_iff {items : List Item} :
    TraitsLexed items ↔ ∀ item ∈ items, TraitsLexed [item] := by
  constructor
  · intro h item hItem rest d hHolds
    refine h rest d ?_
    cases hHolds with
    | here hMem =>
      obtain rfl := List.mem_singleton.mp hMem
      exact .here hItem
    | inside hModule hHolds =>
      obtain rfl := List.mem_singleton.mp hModule
      exact .inside hItem hHolds
  · intro h rest d hHolds
    cases hHolds with
    | here hMem => exact h _ hMem [] d (.here List.mem_cons_self)
    | inside hModule hHolds => exact h _ hModule _ d (.inside List.mem_cons_self hHolds)

theorem traitsLexed_trait {d : TraitDeclaration} (h : ∀ a ∈ d.attributes, a.Lexed) :
    TraitsLexed [.trait d] := by
  intro rest d' hHolds
  cases hHolds with
  | here hMem =>
    obtain ⟨⟩ := List.mem_singleton.mp hMem
    exact h
  | inside hModule => cases List.mem_singleton.mp hModule

theorem traitsLexed_module {name : String} {content : List Item} (h : TraitsLexed content) :
    TraitsLexed [.module name (some content)] := by
  intro rest d hHolds
  cases hHolds with
  | here hMem => cases List.mem_singleton.mp hMem
  | inside hModule hHolds =>
    obtain ⟨⟩ := List.mem_singleton.mp hModule
    exact h _ d hHolds

/-- Items that have no trait in them. -/
def HoldsNoTrait : Item → Prop
  | .use .. | .other | .module _ none => True
  | .trait _ | .module _ (some _) => False

theorem HoldsNoTrait.traitsLexed {item : Item} (h : HoldsNoTrait item) : TraitsLexed [item] := by
  intro rest d hHolds
  cases hHolds with
  | here hMem =>
    obtain rfl := List.mem_singleton.mp hMem
    cases h
  | inside hModule =>
    obtain rfl := List.mem_singleton.mp hModule
    cases h

/-! ## Parsing -/

namespace Parser

set_option synthInstance.maxSize 100000

theorem yields_namePath : Yields namePath fun path =>
    ∀ s ∈ path.segments, (Code.Word.ident s).isToken = true := by
  have hNames (fuel : Nat) : Yields (namePath.names fuel) fun names =>
      ∀ s ∈ names, (Code.Word.ident s).isToken = true := by
    induction fuel with
    | zero => exact yields_fail
    | succ fuel ih =>
      unfold namePath.names
      refine yields_sees_bind fun s hs => .ite (fun _ => ?_) fun _ => yields_fail s hs
      refine (yieldsAt_anyIdent hs).bind fun name hName => Leaves.bind fun _ => .ite (fun _ => ?_)
        fun _ => yields_pure (List.forall_mem_singleton.mpr hName.1)
      exact ih.bind fun more hMore => yields_pure (List.forall_mem_cons.mpr ⟨hName.1, hMore⟩)
  exact Leaves.bind fun _ => Leaves.bind fun s => (hNames _).bind fun segments h => yields_pure h

variable {g : Grammar} [YieldsNames g]

theorem yields_attributeContent : Yields (attributeContent g) Attribute.Lexed := by
  have hPath (path : PlainPath) (h : ∀ s ∈ path.segments, (Code.Word.ident s).isToken = true) :
      Yields (do
        let arguments ← attributeArguments g
        pure (⟨path, arguments⟩ : Attribute)) Attribute.Lexed :=
    Leaves.bind fun _ => yields_pure h
  have hUnsafe : ∀ s ∈ ["unsafe"], (Code.Word.ident s).isToken = true := by decide
  refine Leaves.bind fun _ => .ite (fun _ => Leaves.bind fun _ => ?_) fun _ => ?_
  · exact (yields_pure hUnsafe).bind hPath
  · exact yields_namePath.bind hPath

theorem yields_outerAttributes :
    Yields (outerAttributes g) fun attributes => ∀ a ∈ attributes, a.Lexed :=
  (Leaves.bind fun _ => yields_attributeContent.group _).whileSees _

theorem yields_traitBody_lexed {attributes : List Attribute} (h : ∀ a ∈ attributes, a.Lexed)
    (vis : Visibility) (name : String) (hasGenerics : Bool) :
    Yields (traitBody g attributes vis name hasGenerics) fun item => TraitsLexed [item] := by
  have : Leaves (traitMember g) := yields_traitMember.leaves
  refine Leaves.bind fun hasBounds => .ite (fun _ => ?_) fun _ => ?_
  all_goals exact Leaves.bind fun _ => Leaves.bind fun _ => Leaves.bind fun _ =>
    yields_pure (traitsLexed_trait h)

theorem yields_traitItem_lexed {attributes : List Attribute} (h : ∀ a ∈ attributes, a.Lexed)
    (vis : Visibility) : Yields (traitItem g attributes vis) fun item => TraitsLexed [item] := by
  refine Leaves.bind fun _ => Leaves.bind fun _ => Leaves.bind fun _ => Leaves.bind fun _ =>
    Leaves.bind fun name => Leaves.bind fun hasGenerics => Leaves.bind fun _ =>
    .ite (fun _ => ?_) fun _ => yields_traitBody_lexed h vis name hasGenerics
  exact Leaves.bind fun _ => Leaves.bind fun _ => Leaves.bind fun _ => Leaves.bind fun _ =>
    yields_pure (HoldsNoTrait.traitsLexed trivial)

theorem yields_useItem_lexed : Yields useItem fun item => TraitsLexed [item] := by
  refine Leaves.bind fun _ => Leaves.bind fun _ => Leaves.bind fun s => ?_
  refine (yields_useTree _ _).bind fun o _ => Leaves.bind fun _ => yields_pure ?_
  cases o <;> exact HoldsNoTrait.traitsLexed trivial

theorem yields_moduleItem_lexed (h : Yields g.item fun item => TraitsLexed [item]) :
    Yields (moduleItem g) fun item => TraitsLexed [item] := by
  have hItems : Yields (braces do
      innerAttributes g
      toEnd g.item) TraitsLexed :=
    ((Leaves.bind fun _ => h.toEnd).group _).imp fun _ hItems => traitsLexed_iff.mpr hItems
  have hModule (name : String) : Yields (do
      if ← sees (peekOp ";") then
        op ";"
        pure (Item.module name none)
      else
        let items ← braces do
          innerAttributes g
          toEnd g.item
        pure (Item.module name (some items))) fun item : Item => TraitsLexed [item] := by
    refine Leaves.bind fun _ => .ite (fun _ => ?_) fun _ => ?_
    · exact Leaves.bind fun _ => yields_pure (HoldsNoTrait.traitsLexed trivial)
    · exact hItems.bind fun _ hContent => yields_pure (traitsLexed_module hContent)
  refine Leaves.bind fun _ => Leaves.bind fun _ => Leaves.bind fun _ => .ite (fun _ => ?_) fun _ => ?_
  all_goals exact Leaves.bind hModule

theorem yields_itemStep_lexed (h : Yields g.item fun item => TraitsLexed [item]) :
    Yields (itemStep g) fun item => TraitsLexed [item] := by
  have hOther (p : Parser Unit) [Leaves p] : Yields (do
      p
      pure Item.other) fun item => TraitsLexed [item] :=
    Leaves.bind fun _ => yields_pure (HoldsNoTrait.traitsLexed trivial)
  refine yields_outerAttributes.bind fun attributes hAttributes => ?_
  have hTrait (vis : Visibility) := yields_traitItem_lexed (g := g) hAttributes vis
  refine Leaves.bind fun vis => Leaves.bind fun s => ?_
  refine .ite (fun _ => hOther _) fun _ => .ite (fun _ => ?foreign) fun _ =>
    .ite (fun _ => yields_useItem_lexed) fun _ => .ite (fun _ => hOther _) fun _ =>
    .ite (fun _ => hOther _) fun _ => .ite (fun _ => ?marked) fun _ =>
    .ite (fun _ => yields_moduleItem_lexed h) fun _ => .ite (fun _ => hOther _) fun _ =>
    .ite (fun _ => hOther _) fun _ => .ite (fun _ => hOther _) fun _ =>
    .ite (fun _ => hOther _) fun _ => .ite (fun _ => hTrait vis) fun _ =>
    .ite (fun _ => hOther _) fun _ => .ite (fun _ => hOther _) fun _ => Leaves.bind fun _ => hOther _
  case foreign => exact .ite (fun _ => hOther _) fun _ => Leaves.bind fun _ => hOther _
  case marked =>
    exact .ite (fun _ => hTrait vis) fun _ => .ite (fun _ => hOther _) fun _ =>
      .ite (fun _ => Leaves.bind fun _ => hOther _) fun _ => yields_moduleItem_lexed h

theorem yields_item_lexed (depth : Nat) :
    Yields (Grammar.ofDepth depth).item fun item => TraitsLexed [item] := by
  induction depth with
  | zero => exact yields_fail
  | succ depth ih => exact yields_itemStep_lexed ih

end Parser

theorem parseFile?_traitsLexed {text : String} {items : List Item} (h : parseFile? text = some items) :
    TraitsLexed items := by
  obtain ⟨s, hTokens, hItems⟩ := Option.bind_eq_some_iff.mp h
  rw [parseItems?, Grammar.ofTokens] at hItems
  have hFile (depth : Nat) : Parser.Yields (Parser.file (Grammar.ofDepth depth)) TraitsLexed :=
    Parser.Leaves.bind fun _ =>
      (Parser.yields_item_lexed depth).toEnd.imp fun _ => traitsLexed_iff.mpr
  exact (hFile _).run? (Lexer.lexFile?_named hTokens) hItems

end Source

structure SourceFile.Lexed (f : SourceFile) : Prop where
  names : Item.allWellNamed f.items = true
  attributes : Source.TraitsLexed f.items

theorem SourceFile.IsParsed.lexed {f : SourceFile} (h : f.IsParsed) : f.Lexed := by
  refine ⟨h.wellNamed, ?_⟩
  obtain ⟨text, hItems⟩ := h
  exact Source.parseFile?_traitsLexed hItems

/-! ## Indexed traits -/

namespace Extraction

/-- A trait of a scope that a file has below some modules. -/
structure TraitEntry.From (e : TraitEntry) (items : List Item) (rest : List String)
    (scope : List Item) : Prop where
  held : ∀ item ∈ scope, Holds items rest item
  declared : .trait e.declaration ∈ scope
  imports : e.imports = .ofItems scope

namespace TraitIndex

variable {file : String}

mutual

theorem ofItem_from {modulePath : List String} {whole : List Item} (item : Item) (h : item ∈ whole) :
    ∀ e ∈ (ofItem file modulePath (.ofItems whole) item).traits,
      ∃ rest scope, e.From whole rest scope := by
  match item with
  | .use .. | .other | .module _ none => exact fun e he => absurd he List.not_mem_nil
  | .trait declaration =>
    intro e he
    obtain rfl := List.mem_singleton.mp he
    exact ⟨[], whole, fun _ hItem => .here hItem, h, rfl⟩
  | .module name (some items) =>
    intro e he
    obtain ⟨rest, scope, hFrom⟩ := ofItemList_from items (fun _ hItem => hItem) e he
    exact ⟨name :: rest, scope, fun item hItem => .inside h (hFrom.held item hItem),
      hFrom.declared, hFrom.imports⟩

theorem ofItemList_from {modulePath : List String} {whole : List Item} (items : List Item)
    (h : ∀ item ∈ items, item ∈ whole) :
    ∀ e ∈ (ofItemList file modulePath (.ofItems whole) items).traits,
      ∃ rest scope, e.From whole rest scope := by
  match items with
  | [] => exact fun e he => absurd he List.not_mem_nil
  | item :: items =>
    obtain ⟨hItem, hRest⟩ := List.forall_mem_cons.mp h
    exact List.forall_mem_append.mpr ⟨ofItem_from item hItem, ofItemList_from items hRest⟩

end

theorem exists_from {files : List SourceFile} {e : TraitEntry} (h : e ∈ (ofFiles files).traits) :
    ∃ f ∈ files, ∃ rest scope, e.From f.items rest scope := by
  rw [ofFiles_eq] at h
  obtain ⟨f, hFile, he⟩ := List.mem_flatMap.mp h
  exact ⟨f, hFile, ofItemList_from f.items (fun _ hItem => hItem) e he⟩

end TraitIndex
end Extraction

/-! ## Full names of attributes -/

theorem Holds.wellNamed {items : List Item} {rest : List String} {item : Item}
    (h : Holds items rest item) (hItems : Item.allWellNamed items = true) : item.wellNamed = true := by
  induction h with
  | here h => exact (Item.allWellNamed_iff _).mp hItems _ h
  | inside hModule _ ih =>
    have hContent := (Item.allWellNamed_iff _).mp hItems _ hModule
    exact ih (Bool.and_eq_true_iff.mp hContent).2

theorem isBare_joinPath {full : List String} (h : ∀ s ∈ full, (Code.Word.ident s).isToken = true) :
    IsBare (joinPath full) := by
  cases full with
  | nil => exact fun c hc => absurd hc List.not_mem_nil
  | cons first more =>
    obtain ⟨hFirst, hMore⟩ := List.forall_mem_cons.mp h
    rw [IsBare, Source.toList_joinPath, List.forall_mem_append]
    refine ⟨isBareChar_of_isToken hFirst, fun c hc => ?_⟩
    obtain ⟨name, hName, hc⟩ := List.mem_flatMap.mp hc
    rcases List.mem_cons.mp hc with rfl | hc
    · exact .inl rfl
    rcases List.mem_cons.mp hc with rfl | hc
    · exact .inl rfl
    · exact isBareChar_of_isToken (hMore name hName) c hc

theorem FullName.tokens {items : List Item} (hItems : Imports.UsesSegments items)
    {path : Source.PlainPath} {full : List String} (h : FullName items path full)
    (hPath : ∀ s ∈ path.segments, (Code.Word.ident s).isToken = true) :
    ∀ s ∈ full, (Code.Word.ident s).isToken = true := by
  cases h with
  | global | written => exact hPath
  | imported h =>
    exact List.forall_mem_append.mpr
      ⟨fun s hs => (h.imported.segments hItems s hs).token, (List.forall_mem_cons.mp hPath).2⟩
  | glob _ hGlob =>
    exact List.forall_mem_append.mpr ⟨fun s hs => (hGlob.segments hItems s hs).token, hPath⟩

theorem Extraction.TraitIndex.bareCandidates {files : List SourceFile} (hFiles : ∀ f ∈ files, f.Lexed)
    {e : Extraction.TraitEntry} (he : e ∈ (ofFiles files).traits) {a : Attribute}
    (ha : a ∈ e.declaration.attributes) :
    ∀ candidate ∈ e.imports.candidates a.path.segments a.path.leadingColon, IsBare candidate := by
  obtain ⟨f, hFile, rest, scope, hFrom⟩ := exists_from he
  obtain ⟨hNames, hAttributes⟩ := hFiles f hFile
  intro candidate hCandidate
  rw [hFrom.imports] at hCandidate
  obtain ⟨full, hFull, rfl⟩ := mem_candidates_iff.mp hCandidate
  have hUses : Imports.UsesSegments scope := fun _ _ hItem => (hFrom.held _ hItem).wellNamed hNames
  exact isBare_joinPath
    (hFull.tokens hUses (hAttributes _ _ (hFrom.held _ hFrom.declared) a ha))

end TraitClient
