import TraitClient.Proofs.ServiceNames
import TraitClient.Proofs.SpelledTypes

/-!
# Types are read back

The tokens of a resolved type are a type again, which the same imports resolve to what it was before.
Only a raw lifetime stands in the way: there is no token for it.
-/
namespace TraitClient

open Source (TypeExpr TypePart)
open Imports (Made SpellsPart UsesSegments)

/-! ## Words of resolved types -/

namespace TypeRef

theorem words_borrowed {t : TypeRef} (h : t.byRef = false) (lifetime : Option String) :
    (t.borrowed lifetime).words = lifetime.toList.map .lifetime ++ t.words := by
  cases t
  simp_all [borrowed, words]

theorem words_slice (element : TypeRef) : (slice element).words = element.words := by
  have hPath : sliceName ≠ "()" := by decide
  simp [slice, named, words, firstWords, hPath]

theorem words_nullable (t : TypeRef) : ({ t with nullable := true } : TypeRef).words = t.words := by
  cases t
  simp [words]

theorem mem_listWords {w : Code.Word} {t : TypeRef} {ts : List TypeRef} (ht : t ∈ ts)
    (h : w ∈ t.words) : w ∈ listWords ts := by
  induction ts with
  | nil => exact absurd ht List.not_mem_nil
  | cons first rest ih =>
    rw [listWords, List.mem_append]
    rcases List.mem_cons.mp ht with rfl | ht
    · exact .inl h
    · exact .inr (ih ht)

/-- No lifetime is raw. -/
def PlainLifetimes (t : TypeRef) : Prop :=
  ∀ name, .lifetime name ∈ t.words → Naming.isRaw name = false

theorem plainLifetimes_of_words {t : TypeRef} (h : Code.firstBad? t.words = none) :
    t.PlainLifetimes := by
  intro name hName
  have hToken : (Code.Word.lifetime name).isToken = true := by
    simpa using List.find?_eq_none.mp h _ hName
  exact Code.isRaw_of_isIdentText hToken

end TypeRef

/-! ## Resolved types -/

/-- The tokens of a type are one type, which the imports resolve to the type again. -/
structure ReadsBack (imports : Imports) (t : TypeRef) : Prop where
  /-- There are tokens for all names. -/
  written : Code.firstBad? t.words = none
  read : ∃ e, Source.parseTypeTokens? t.tokens = some e ∧ imports.resolve e = .ok t

namespace Imports

variable {imports : Imports}

theorem words_path {leadingColon : Bool} {segments : List Source.TypeSegment}
    (h : imports.Spelled) (hNonempty : segments ≠ [])
    (hGood : SpellsPart imports false (.path leadingColon segments)) (arguments : List TypeRef) :
    ∀ a ∈ arguments, ∀ w ∈ a.words, w ∈ ({ TypeRef.named
      (imports.qualify (segments.map (·.name)) leadingColon)
      ((if leadingColon then "::" else "") ++ joinPath (segments.map (·.name))) with
        arguments } : TypeRef).words := by
  have hUnit := @writtenPath_ne_unit leadingColon _ (by simpa using hNonempty) hGood.segments
  have hSlice := qualify_ne_sliceName h hGood.segments leadingColon
  unfold writtenPath at hUnit
  intro a ha w hw
  have hMem := TypeRef.mem_listWords ha hw
  simp [TypeRef.words, TypeRef.named, hUnit, hSlice, hMem]

theorem Made.spellsParts (h : imports.Spelled) {t : TypeRef}
    (hMade : Made imports (fun part => part.wellNamed = true) t) (hPlain : t.PlainLifetimes) :
    Made imports (SpellsPart imports false) t := by
  induction hMade with
  | unit => exact .unit
  | @slice element lifetime hLifetime _ ih =>
    rw [TypeRef.PlainLifetimes, TypeRef.words_borrowed rfl, TypeRef.words_slice] at hPlain
    refine .slice (fun l hl => ⟨hLifetime l hl, ?_⟩)
      (ih fun name hName => hPlain name (List.mem_append_right _ hName))
    have hRaw := hPlain l (List.mem_append_left _ (by simpa using hl))
    simp [TypePart.hasSpelling, hRaw]
  | @reference inner lifetime hLifetime _ plain ih =>
    rw [TypeRef.PlainLifetimes, TypeRef.words_borrowed (Bool.or_eq_false_iff.mp plain).1] at hPlain
    refine .reference (fun l hl => ⟨hLifetime l hl, ?_⟩)
      (ih fun name hName => hPlain name (List.mem_append_right _ hName)) plain
    have hRaw := hPlain l (List.mem_append_left _ (by simpa using hl))
    simp [TypePart.hasSpelling, hRaw]
  | @option inner _ present ih =>
    rw [TypeRef.PlainLifetimes, TypeRef.words_nullable] at hPlain
    exact .option (ih hPlain) present
  | @path leadingColon segments arguments good nonempty last noOption _ ih =>
    have hGood : SpellsPart imports false (.path leadingColon segments) :=
      ⟨good, by simp [TypePart.hasSpelling]⟩
    refine .path hGood nonempty last noOption fun a ha => ih a ha fun name hName => ?_
    exact hPlain name (words_path h nonempty hGood arguments a ha _ hName)

/-- A type that was resolved is read back exactly if no lifetime of it is raw. -/
theorem resolve_readsBack {items : List Source.Item} (hItems : UsesSegments items)
    {type : TypeExpr} (hType : type.wellNamed = true) {t : TypeRef}
    (h : (ofItems items).resolve type = .ok t) :
    ReadsBack (ofItems items) t ↔ t.PlainLifetimes := by
  refine ⟨fun hReads => TypeRef.plainLifetimes_of_words hReads.written, fun hPlain => ?_⟩
  have hSpelled := hItems.spelled
  have hMade := (resolve_made type (fun part hPart => List.all_eq_true.mp hType part hPart) h
    |>.spellsParts hSpelled hPlain)
  have hLegible : t.Legible := (hMade.spelled hSpelled).legible
  obtain ⟨e, hParse, hMeans⟩ := hLegible.parse
  refine ⟨Code.firstBad?_eq_none_iff.mpr hLegible.areTokens, e, hParse, ?_⟩
  rw [hMeans _ (hMade.settled hSpelled), hMade.requalified hSpelled]

/-- `&'a [Maybe<::r#type::Post>]` -/
def optionalPosts (lifetime : String) : TypeExpr :=
  .reference [] (some lifetime) false
    (.slice [] (.path [] false
      [.mk "Maybe" (.angle [.type (.path [] true [.mk "r#type" .none, .mk "Post" .none])])]))

/-- `use std::option::Option as Maybe` -/
def maybeScope : List Source.Item :=
  [.use false (.path "std" (.path "option" (.rename "Option" "Maybe")))]

def optionalPostsRef (lifetime : String) : TypeRef :=
  (TypeRef.slice { TypeRef.named "r#type::Post" "::r#type::Post" with nullable := true }).borrowed
    (some lifetime)

theorem maybeScope_segments : UsesSegments maybeScope := by
  have hAll : maybeScope.all (·.wellNamed) = true := by decide +kernel
  exact fun leadingColon tree hMem => List.all_eq_true.mp hAll _ hMem

theorem resolve_optionalPosts (lifetime : String) :
    (ofItems maybeScope).resolve (optionalPosts lifetime) = .ok (optionalPostsRef lifetime) := rfl

theorem optionalPosts_readsBack : (optionalPosts "a").wellNamed = true ∧
    (optionalPostsRef "a").PlainLifetimes ∧
    ReadsBack (ofItems maybeScope) (optionalPostsRef "a") := by
  have hWellNamed : (optionalPosts "a").wellNamed = true := by decide +kernel
  have hPlain : (optionalPostsRef "a").PlainLifetimes := by
    have hWords : (optionalPostsRef "a").words =
        [.lifetime "a", .ident "r#type", .ident "Post"] := by decide +kernel
    intro name hName
    obtain rfl : name = "a" := by simpa [hWords] using hName
    decide
  exact ⟨hWellNamed, hPlain, (resolve_readsBack maybeScope_segments hWellNamed
    (resolve_optionalPosts "a")).mpr hPlain⟩

/-- There is no token for a raw lifetime. -/
theorem not_readsBack_rawLifetime : ∃ e t, Source.parseType? "&'r#a str" = some e ∧
    e.wellNamed = true ∧ Imports.empty.resolve e = .ok t ∧ ¬ReadsBack .empty t := by
  have hResolved : ((Source.parseType? "&'r#a str").bind fun e =>
      (Imports.empty.resolve e).toOption).map (fun t => Code.firstBad? t.words) =
        some (some (.lifetime "r#a")) := by decide +kernel
  obtain ⟨t, hType, hBad⟩ := Option.map_eq_some_iff.mp hResolved
  obtain ⟨e, hParse, hResolve⟩ := Option.bind_eq_some_iff.mp hType
  refine ⟨e, t, hParse, Source.parseType?_wellNamed hParse, ?_, fun hReads => ?_⟩
  · cases hResult : Imports.empty.resolve e with
    | error error =>
      rw [hResult] at hResolve
      cases hResolve
    | ok resolved =>
      rw [hResult] at hResolve
      exact congrArg Except.ok (Option.some.inj hResolve)
  · rw [hReads.written] at hBad
    cases hBad

end Imports
end TraitClient
