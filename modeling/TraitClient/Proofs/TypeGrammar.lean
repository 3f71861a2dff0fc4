import TraitClient.Proofs.TypeRoundTrip

/-!
# The grammar of resolved types

Which written types are resolved, and what the flags of a resolved type say about how it is written.
Parentheses are passed through everywhere but between a reference and its slice.
-/
namespace TraitClient

open Source (TypeExpr TypeSegment TypeArgument TypeArguments Tokens)

namespace Source

inductive TypeArguments.Types : TypeArguments → List TypeExpr → Prop
  | none : Types .none []
  | angle (types : List TypeExpr) : Types (.angle (types.map .type)) types

def TypeExpr.isReference : TypeExpr → Bool
  | .paren _ inner => inner.isReference
  | .reference .. => true
  | _ => false

end Source

namespace Imports

/-! ## The grammar -/

/-- The argument of a path that is the standard option and has no other arguments. -/
def optionArgument? (imports : Imports) : TypeExpr → Option TypeExpr
  | .path _ leadingColon segments =>
    match segments.getLast? with
    | some (.mk _ (.angle [.type t])) =>
      if isOptionName (imports.qualify (segments.map (·.name)) leadingColon) then some t else none
    | _ => none
  | _ => none

def isOption (imports : Imports) : TypeExpr → Bool
  | .paren _ inner => imports.isOption inner
  | e => (imports.optionArgument? e).isSome

/-- The written types that generated code can spell. -/
inductive Accepts (imports : Imports) : TypeExpr → Prop
  | paren {tokens : Tokens} {inner : TypeExpr} (h : Accepts imports inner) :
    Accepts imports (.paren tokens inner)
  | unit : Accepts imports .unit
  | path {tokens : Tokens} {leadingColon : Bool} {front : List String} {last : String}
      {arguments : TypeArguments} {types : List TypeExpr} (hTypes : arguments.Types types)
      (h : ∀ e ∈ types, Accepts imports e)
      (hOption : ∀ e, imports.optionArgument?
        (.path tokens leadingColon (front.map bareSegment ++ [.mk last arguments])) = some e →
          imports.isOption e = false) :
    Accepts imports (.path tokens leadingColon (front.map bareSegment ++ [.mk last arguments]))
  | slice {tokens sliceTokens : Tokens} {lifetime : Option String} {element : TypeExpr}
      (h : Accepts imports element) :
    Accepts imports (.reference tokens lifetime false (.slice sliceTokens element))
  | reference {tokens : Tokens} {lifetime : Option String} {target : TypeExpr}
      (h : Accepts imports target) (hReference : target.isReference = false)
      (hOption : imports.isOption target = false) :
    Accepts imports (.reference tokens lifetime false target)

/-- The written arguments of the node that a type is resolved to: parentheses, references and
options have no node of their own. -/
inductive NodeArguments (imports : Imports) : TypeExpr → List TypeExpr → Prop
  | paren {tokens : Tokens} {inner : TypeExpr} {types : List TypeExpr}
      (h : NodeArguments imports inner types) : NodeArguments imports (.paren tokens inner) types
  | unit : NodeArguments imports .unit []
  | slice {tokens sliceTokens : Tokens} {lifetime : Option String} {isMut : Bool}
      {element : TypeExpr} :
    NodeArguments imports (.reference tokens lifetime isMut (.slice sliceTokens element)) [element]
  | reference {tokens : Tokens} {lifetime : Option String} {isMut : Bool} {target : TypeExpr}
      {types : List TypeExpr} (h : NodeArguments imports target types) :
    NodeArguments imports (.reference tokens lifetime isMut target) types
  | option {e inner : TypeExpr} {types : List TypeExpr}
      (hOption : imports.optionArgument? e = some inner) (h : NodeArguments imports inner types) :
    NodeArguments imports e types
  | path {tokens : Tokens} {leadingColon : Bool} {segments : List TypeSegment} {name : String}
      {arguments : TypeArguments} {types : List TypeExpr} (hTypes : arguments.Types types)
      (hOption : imports.optionArgument?
        (.path tokens leadingColon (segments ++ [.mk name arguments])) = none) :
    NodeArguments imports (.path tokens leadingColon (segments ++ [.mk name arguments])) types

/-- A resolved type whose flags, at every depth, are those of how it is written. -/
inductive WrittenAs (imports : Imports) : TypeExpr → TypeRef → Prop
  | mk {e : TypeExpr} {t : TypeRef} {types : List TypeExpr}
      (slice : t.isSlice = true → t.byRef = true ∧ t.arguments.length = 1)
      (lifetime : t.lifetime ≠ none → t.byRef = true)
      (nullable : t.nullable = imports.isOption e)
      (arguments : imports.NodeArguments e types)
      (each : List.Forall₂ (WrittenAs imports) types t.arguments) :
    WrittenAs imports e t

/-! ## Resolving as a relation -/

/-- What a written type is resolved to, one clause for each form that it may have. -/
inductive Resolves (imports : Imports) : TypeExpr → TypeRef → Prop
  | paren {tokens : Tokens} {inner : TypeExpr} {t : TypeRef} (h : Resolves imports inner t) :
    Resolves imports (.paren tokens inner) t
  | unit : Resolves imports .unit .unit
  | slice {tokens sliceTokens : Tokens} {lifetime : Option String} {element : TypeExpr}
      {t : TypeRef} (h : Resolves imports element t) :
    Resolves imports (.reference tokens lifetime false (.slice sliceTokens element))
      ((TypeRef.slice t).borrowed lifetime)
  | reference {tokens : Tokens} {lifetime : Option String} {target : TypeExpr} {t : TypeRef}
      (h : Resolves imports target t) (hPlain : t.byRef = false) (hPresent : t.nullable = false) :
    Resolves imports (.reference tokens lifetime false target) (t.borrowed lifetime)
  | option {tokens : Tokens} {leadingColon : Bool} {front : List String} {last : String}
      {e : TypeExpr} {t : TypeRef}
      (hName : isOptionName (imports.qualify (front ++ [last]) leadingColon) = true)
      (h : Resolves imports e t) (hPresent : t.nullable = false) :
    Resolves imports
      (.path tokens leadingColon (front.map bareSegment ++ [.mk last (.angle [.type e])]))
      { t with nullable := true }
  | named {tokens : Tokens} {leadingColon : Bool} {front : List String} {last : String}
      {arguments : TypeArguments} {types : List TypeExpr} {ts : List TypeRef}
      (hTypes : arguments.Types types)
      (hName : isOptionName (imports.qualify (front ++ [last]) leadingColon) = true →
        ts.length ≠ 1)
      (hLength : types.length = ts.length)
      (h : ∀ {e t}, (e, t) ∈ types.zip ts → Resolves imports e t) :
    Resolves imports
      (.path tokens leadingColon (front.map bareSegment ++ [.mk last arguments]))
      { TypeRef.named (imports.qualify (front ++ [last]) leadingColon)
        (writtenPath leadingColon (front ++ [last])) with arguments := ts }

variable {imports : Imports} {tokens : Tokens}

theorem resolveEach_eq_ok {arguments : List TypeArgument} {ts : List TypeRef} :
    imports.resolveEach tokens arguments = .ok ts ↔ ∃ types, arguments = types.map .type ∧
      List.Forall₂ (fun e t => imports.resolve e = .ok t) types ts := by
  induction arguments generalizing ts with
  | nil =>
    refine ⟨fun h => ?_, ?_⟩
    · cases h
      exact ⟨[], rfl, .nil⟩
    · rintro ⟨types, hTypes, hEach⟩
      obtain rfl := List.map_eq_nil_iff.mp hTypes.symm
      cases hEach
      rfl
  | cons argument rest ih =>
    refine ⟨fun h => ?_, ?_⟩
    · rw [resolveEach] at h
      obtain ⟨first, hFirst, h⟩ := bind_eq_ok h
      obtain ⟨others, hOthers, h⟩ := bind_eq_ok h
      cases h
      obtain ⟨types, rfl, hEach⟩ := ih.mp hOthers
      cases argument with
      | type e => exact ⟨e :: types, rfl, .cons hFirst hEach⟩
      | lifetime | other => cases hFirst
    · rintro ⟨types, hTypes, hEach⟩
      obtain ⟨e, types, rfl, rfl, rfl⟩ := List.map_eq_cons_iff.mp hTypes.symm
      cases hEach with
      | cons hFirst hEach =>
        rw [resolveEach, resolveArgument, hFirst, ih.mpr ⟨types, rfl, hEach⟩]
        rfl

theorem resolveArguments_eq_ok {arguments : TypeArguments} {ts : List TypeRef} :
    imports.resolveArguments tokens arguments = .ok ts ↔ ∃ types, arguments.Types types ∧
      List.Forall₂ (fun e t => imports.resolve e = .ok t) types ts := by
  refine ⟨fun h => ?_, ?_⟩
  · cases arguments with
    | none =>
      cases h
      exact ⟨[], .none, .nil⟩
    | angle arguments =>
      obtain ⟨types, rfl, hEach⟩ := resolveEach_eq_ok.mp h
      exact ⟨types, .angle types, hEach⟩
    | parenthesized => cases h
  · rintro ⟨types, hTypes, hEach⟩
    cases hTypes with
    | none =>
      cases hEach
      rfl
    | angle => exact resolveEach_eq_ok.mpr ⟨types, rfl, hEach⟩

theorem exists_front {segments : List TypeSegment} (hNonempty : segments ≠ [])
    (hBare : segments.dropLast.any hasArguments = false) :
    ∃ (front : List String) (last : String) (arguments : TypeArguments),
      segments = front.map bareSegment ++ [.mk last arguments] := by
  obtain ⟨front, ⟨last, arguments⟩, rfl⟩ :=
    (List.eq_nil_or_concat segments).resolve_left hNonempty
  rw [List.concat_eq_append] at hBare ⊢
  rw [List.dropLast_concat] at hBare
  have hEach : ∀ s ∈ front, bareSegment s.name = s := by
    rintro ⟨name, arguments⟩ hs
    have hNone := List.any_eq_false.mp hBare _ hs
    cases arguments with
    | none => rfl
    | angle | parenthesized => exact absurd rfl hNone
  have hFront : (front.map (·.name)).map bareSegment = front := by
    rw [List.map_map]
    exact (List.map_congr_left hEach).trans (List.map_id _)
  exact ⟨front.map (·.name), last, arguments, by rw [hFront]⟩

theorem resolve_path_eq_ok {leadingColon : Bool} {segments : List TypeSegment} {t : TypeRef} :
    imports.resolve (.path tokens leadingColon segments) = .ok t ↔
      ∃ front last arguments types ts, segments = front.map bareSegment ++ [.mk last arguments] ∧
        arguments.Types types ∧
        List.Forall₂ (fun e t => imports.resolve e = .ok t) types ts ∧
        imports.pathType tokens leadingColon (front ++ [last]) ts = .ok t := by
  refine ⟨fun h => ?_, ?_⟩
  · have hNonempty : segments ≠ [] := by
      rintro rfl
      cases h
    have hBare : segments.dropLast.any hasArguments = false := by
      rw [resolve] at h
      split at h
      · cases h
      · rename_i hBare
        exact Bool.eq_false_iff.mpr hBare
    obtain ⟨front, last, arguments, rfl⟩ := exists_front hNonempty hBare
    rw [resolve_typePath] at h
    obtain ⟨ts, hArguments, h⟩ := bind_eq_ok h
    obtain ⟨types, hTypes, hEach⟩ := resolveArguments_eq_ok.mp hArguments
    exact ⟨front, last, arguments, types, ts, rfl, hTypes, hEach, h⟩
  · rintro ⟨front, last, arguments, types, ts, rfl, hTypes, hEach, h⟩
    rw [resolve_typePath, resolveArguments_eq_ok.mpr ⟨types, hTypes, hEach⟩]
    exact h

theorem optionArgument?_typePath {leadingColon : Bool} {front : List String} {last : String}
    {arguments : TypeArguments} {types : List TypeExpr} (hTypes : arguments.Types types)
    (e : TypeExpr) :
    imports.optionArgument?
        (.path tokens leadingColon (front.map bareSegment ++ [.mk last arguments])) = some e ↔
      types = [e] ∧ isOptionName (imports.qualify (front ++ [last]) leadingColon) = true := by
  have hNames : (front.map bareSegment ++ [TypeSegment.mk last arguments]).map (·.name) =
      front ++ [last] := by
    rw [List.map_append, map_name_bareSegment]
    rfl
  rw [optionArgument?, List.getLast?_concat, hNames]
  cases hTypes with
  | none => simp
  | angle types =>
    match types with
    | [] => simp
    | [only] => simp [and_comm]
    | _ :: _ :: _ => simp

theorem sizeOf_lt_segments {front : List TypeSegment} {last : String} {arguments : TypeArguments}
    {types : List TypeExpr} (hTypes : arguments.Types types) {e : TypeExpr} (he : e ∈ types) :
    sizeOf e < sizeOf (front ++ [TypeSegment.mk last arguments]) := by
  have hSegment : sizeOf (TypeSegment.mk last arguments) <
      sizeOf (front ++ [TypeSegment.mk last arguments]) := List.sizeOf_lt_of_mem (by simp)
  cases hTypes with
  | none => cases he
  | angle =>
    have hArgument := List.sizeOf_lt_of_mem (List.mem_map_of_mem (f := TypeArgument.type) he)
    simp only [TypeSegment.mk.sizeOf_spec, TypeArguments.angle.sizeOf_spec,
      TypeArgument.type.sizeOf_spec] at hArgument hSegment
    omega

theorem resolves_of_pathType {leadingColon : Bool} {front : List String} {last : String}
    {arguments : TypeArguments} {types : List TypeExpr} {ts : List TypeRef} {t : TypeRef}
    (hTypes : arguments.Types types) (hEach : List.Forall₂ imports.Resolves types ts)
    (h : imports.pathType tokens leadingColon (front ++ [last]) ts = .ok t) :
    imports.Resolves (.path tokens leadingColon (front.map bareSegment ++ [.mk last arguments])) t := by
  by_cases hName : isOptionName (imports.qualify (front ++ [last]) leadingColon) = true →
      ts.length ≠ 1
  · rw [pathType_eq hName] at h
    cases h
    obtain ⟨hLength, hPairs⟩ := List.forall₂_iff_zip.mp hEach
    exact .named hTypes hName hLength hPairs
  · push Not at hName
    obtain ⟨hOption, hLength⟩ := hName
    obtain ⟨inner, rfl⟩ := List.length_eq_one_iff.mp hLength
    cases hEach with
    | @cons e _ _ _ hInner hRest =>
      cases hRest
      cases hTypes
      simp only [pathType, hOption] at h
      split at h
      · cases h
      · rename_i hPresent
        cases h
        exact .option hOption hInner (by simpa using hPresent)

theorem resolves_of_resolve (e : TypeExpr) {t : TypeRef} (h : imports.resolve e = .ok t) :
    imports.Resolves e t := by
  match e with
  | .paren _ inner =>
    rw [resolve] at h
    exact .paren (resolves_of_resolve inner h)
  | .unit =>
    cases h
    exact .unit
  | .reference tokens lifetime isMut target =>
    -- A reference to a slice is taken whole: a slice alone resolves to nothing.
    by_cases hSlice : ∃ tokens element, target = .slice tokens element
    · obtain ⟨_, element, rfl⟩ := hSlice
      rw [resolve] at h
      split at h
      · cases h
      · rename_i hShared
        obtain rfl := Bool.eq_false_iff.mpr hShared
        obtain ⟨inner, hElement, h⟩ := bind_eq_ok h
        cases h
        exact .slice (resolves_of_resolve element hElement)
    · rw [resolve_reference fun tokens element hEq => hSlice ⟨tokens, element, hEq⟩] at h
      split at h
      · cases h
      · rename_i hShared
        obtain rfl := Bool.eq_false_iff.mpr hShared
        obtain ⟨inner, hInner, h⟩ := bind_eq_ok h
        split at h
        · cases h
        · rename_i hPlain
          obtain ⟨hPlain, hPresent⟩ := Bool.or_eq_false_iff.mp (Bool.eq_false_iff.mpr hPlain)
          cases h
          exact .reference (resolves_of_resolve target hInner) hPlain hPresent
  | .slice _ _ => cases h
  | .path tokens leadingColon segments =>
    obtain ⟨front, last, arguments, types, ts, hSegments, hTypes, hEach, h⟩ :=
      resolve_path_eq_ok.mp h
    obtain ⟨hLength, hPairs⟩ := List.forall₂_iff_zip.mp hEach
    have hResolves : List.Forall₂ imports.Resolves types ts := by
      refine List.forall₂_iff_zip.mpr ⟨hLength, fun {e t} hPair => ?_⟩
      have hSize : sizeOf e < sizeOf segments :=
        hSegments ▸ sizeOf_lt_segments hTypes (List.of_mem_zip hPair).1
      exact resolves_of_resolve e (hPairs hPair)
    exact hSegments ▸ resolves_of_pathType hTypes hResolves h
  | .other _ => cases h
termination_by sizeOf e

theorem pathType_of_option {leadingColon : Bool} {segments : List String} {inner : TypeRef}
    (hName : isOptionName (imports.qualify segments leadingColon) = true)
    (hPresent : inner.nullable = false) :
    imports.pathType tokens leadingColon segments [inner] = .ok { inner with nullable := true } := by
  simp [pathType, hName, hPresent]

theorem Resolves.resolve_eq {e : TypeExpr} {t : TypeRef} (h : imports.Resolves e t) :
    imports.resolve e = .ok t := by
  induction h with
  | paren _ ih => exact ih
  | unit => rfl
  | slice _ ih =>
    rw [resolve, ih]
    rfl
  | @reference tokens lifetime target t h hPlain hPresent ih =>
    have hSlice : ∀ tokens element, target ≠ .slice tokens element := by
      rintro _ _ rfl
      cases h
    rw [resolve_reference hSlice, ih]
    simp [bind, Except.bind, hPlain, hPresent]
  | option hName _ hPresent ih =>
    exact resolve_path_eq_ok.mpr ⟨_, _, _, _, _, rfl, .angle [_], .cons ih .nil,
      pathType_of_option hName hPresent⟩
  | named hTypes hName hLength _ ih =>
    exact resolve_path_eq_ok.mpr ⟨_, _, _, _, _, rfl, hTypes,
      List.forall₂_iff_zip.mpr ⟨hLength, ih⟩, pathType_eq hName⟩

theorem resolve_eq_ok_iff {e : TypeExpr} {t : TypeRef} :
    imports.resolve e = .ok t ↔ imports.Resolves e t :=
  ⟨resolves_of_resolve e, Resolves.resolve_eq⟩

/-! ## Flags -/

theorem isOption_typePath {leadingColon : Bool} {segments : List TypeSegment} :
    imports.isOption (.path tokens leadingColon segments) =
      (imports.optionArgument? (.path tokens leadingColon segments)).isSome := rfl

theorem optionArgument?_of_option {leadingColon : Bool} {front : List String} {last : String}
    {e : TypeExpr}
    (hName : isOptionName (imports.qualify (front ++ [last]) leadingColon) = true) :
    imports.optionArgument? (.path tokens leadingColon
      (front.map bareSegment ++ [.mk last (.angle [.type e])])) = some e :=
  (optionArgument?_typePath (.angle [e]) e).mpr ⟨rfl, hName⟩

theorem optionArgument?_of_named {leadingColon : Bool} {front : List String} {last : String}
    {arguments : TypeArguments} {types : List TypeExpr} (hTypes : arguments.Types types)
    (hName : isOptionName (imports.qualify (front ++ [last]) leadingColon) = true →
      types.length ≠ 1) :
    imports.optionArgument?
      (.path tokens leadingColon (front.map bareSegment ++ [.mk last arguments])) = none := by
  refine Option.eq_none_iff_forall_ne_some.mpr fun e he => ?_
  obtain ⟨rfl, hOption⟩ := (optionArgument?_typePath hTypes e).mp he
  exact hName hOption rfl

theorem Resolves.nullable_eq {e : TypeExpr} {t : TypeRef} (h : imports.Resolves e t) :
    t.nullable = imports.isOption e := by
  induction h with
  | paren _ ih => exact ih
  | unit => rfl
  | slice => rfl
  | reference _ _ hPresent => exact hPresent
  | option hName => rw [isOption_typePath, optionArgument?_of_option hName]; rfl
  | named hTypes hName hLength =>
    rw [isOption_typePath, optionArgument?_of_named hTypes (hLength ▸ hName)]
    rfl

theorem Resolves.byRef_eq {e : TypeExpr} {t : TypeRef} (h : imports.Resolves e t)
    (hPresent : t.nullable = false) : t.byRef = e.isReference := by
  induction h with
  | paren _ ih => exact ih hPresent
  | unit => rfl
  | slice => rfl
  | reference => rfl
  | option => cases hPresent
  | named => rfl

/-! ## What is accepted -/

theorem Resolves.accepts {e : TypeExpr} {t : TypeRef} (h : imports.Resolves e t) :
    imports.Accepts e := by
  induction h with
  | paren _ ih => exact .paren ih
  | unit => exact .unit
  | slice _ ih => exact .slice ih
  | reference h hPlain hPresent ih =>
    exact .reference ih (h.byRef_eq hPresent ▸ hPlain) (h.nullable_eq ▸ hPresent)
  | @option tokens leadingColon front last e t hName h hPresent ih =>
    refine .path (.angle [e]) (fun other hOther => ?_) fun other hOther => ?_
    · obtain rfl := List.mem_singleton.mp hOther
      exact ih
    · rw [optionArgument?_of_option hName] at hOther
      obtain rfl := Option.some.inj hOther
      exact h.nullable_eq ▸ hPresent
  | @named tokens leadingColon front last arguments types ts hTypes hName hLength h ih =>
    refine .path hTypes (fun e he => ?_) fun e he => ?_
    · rw [← List.map_fst_zip hLength.le] at he
      obtain ⟨⟨e, t⟩, hPair, rfl⟩ := List.mem_map.mp he
      exact ih hPair
    · rw [optionArgument?_of_named hTypes (hLength ▸ hName)] at he
      cases he

theorem exists_resolves {types : List TypeExpr} (h : ∀ e ∈ types, ∃ t, imports.Resolves e t) :
    ∃ ts, List.Forall₂ imports.Resolves types ts := by
  induction types with
  | nil => exact ⟨[], .nil⟩
  | cons e types ih =>
    obtain ⟨⟨t, hFirst⟩, hRest⟩ := List.forall_mem_cons.mp h
    obtain ⟨ts, hEach⟩ := ih hRest
    exact ⟨t :: ts, .cons hFirst hEach⟩

theorem Accepts.exists_resolves {e : TypeExpr} (h : imports.Accepts e) :
    ∃ t, imports.Resolves e t := by
  induction h with
  | paren _ ih =>
    obtain ⟨t, hInner⟩ := ih
    exact ⟨t, .paren hInner⟩
  | unit => exact ⟨.unit, .unit⟩
  | slice _ ih =>
    obtain ⟨t, hElement⟩ := ih
    exact ⟨_, .slice hElement⟩
  | reference _ hReference hOption ih =>
    obtain ⟨t, hTarget⟩ := ih
    have hPresent := hTarget.nullable_eq.trans hOption
    exact ⟨_, .reference hTarget ((hTarget.byRef_eq hPresent).trans hReference) hPresent⟩
  | @path tokens leadingColon front last arguments types hTypes _ hOption ih =>
    obtain ⟨ts, hEach⟩ := Imports.exists_resolves ih
    by_cases hName : isOptionName (imports.qualify (front ++ [last]) leadingColon) = true →
        ts.length ≠ 1
    · obtain ⟨hLength, hPairs⟩ := List.forall₂_iff_zip.mp hEach
      exact ⟨_, .named hTypes hName hLength hPairs⟩
    · push Not at hName
      obtain ⟨hName, hLength⟩ := hName
      obtain ⟨e, rfl⟩ := List.length_eq_one_iff.mp (hEach.length_eq.trans hLength)
      cases hTypes
      cases hEach with
      | cons hInner hRest =>
        have hPresent := hOption e (optionArgument?_of_option hName)
        exact ⟨_, .option hName hInner (hInner.nullable_eq.trans hPresent)⟩

theorem exists_resolve_iff {e : TypeExpr} :
    (∃ t, imports.resolve e = .ok t) ↔ imports.Accepts e := by
  simp only [resolve_eq_ok_iff]
  exact ⟨fun ⟨_, h⟩ => h.accepts, Accepts.exists_resolves⟩

/-! ## How resolved types are written -/

/-- No path of the type has the name that stands for a slice. -/
def NoSliceName (imports : Imports) (e : TypeExpr) : Prop :=
  ∀ leadingColon segments, .path leadingColon segments ∈ e.parts →
    imports.qualify (segments.map (·.name)) leadingColon ≠ TypeRef.sliceName

theorem noSliceName_of_wellNamed (hImports : imports.Spelled) {e : TypeExpr}
    (h : e.wellNamed = true) : imports.NoSliceName e := by
  intro leadingColon segments hPart
  have hEach := List.all_eq_true.mp (Bool.and_eq_true_iff.mp (List.all_eq_true.mp h _ hPart)).2
  refine qualify_ne_sliceName hImports (fun name hName => ?_) leadingColon
  obtain ⟨s, hs, rfl⟩ := List.mem_map.mp hName
  exact Source.isSegment_iff.mp (Bool.and_eq_true_iff.mp (hEach s hs)).1

theorem mem_allParts_types {types : List TypeExpr} {e : TypeExpr} (he : e ∈ types)
    {part : Source.TypePart} (hPart : part ∈ e.parts) :
    part ∈ TypeArgument.allParts (types.map .type) := by
  induction types with
  | nil => cases he
  | cons first rest ih =>
    rw [List.map_cons, TypeArgument.allParts, List.mem_append]
    rcases List.mem_cons.mp he with rfl | he
    · exact .inl hPart
    · exact .inr (ih he)

theorem mem_parts_typePath {leadingColon : Bool} {front : List TypeSegment} {last : String}
    {arguments : TypeArguments} {types : List TypeExpr} (hTypes : arguments.Types types)
    {e : TypeExpr} (he : e ∈ types) {part : Source.TypePart} (hPart : part ∈ e.parts) :
    part ∈ (TypeExpr.path tokens leadingColon (front ++ [.mk last arguments])).parts := by
  have hArguments : part ∈ arguments.parts := by
    cases hTypes with
    | none => cases he
    | angle => exact mem_allParts_types he hPart
  refine List.mem_cons_of_mem _ ?_
  induction front with
  | nil => exact List.mem_append_left _ hArguments
  | cons first front ih => exact List.mem_append_right _ ih

theorem Resolves.writtenAs {e : TypeExpr} {t : TypeRef} (h : imports.Resolves e t)
    (hNames : imports.NoSliceName e) : imports.WrittenAs e t := by
  have hNullable := h.nullable_eq
  induction h with
  | paren h ih =>
    cases ih hNames h.nullable_eq with
    | mk hSlice hLifetime _ hArguments hEach =>
      exact .mk hSlice hLifetime hNullable (.paren hArguments) hEach
  | unit => exact .mk nofun nofun hNullable .unit .nil
  | slice h ih =>
    have hElement : imports.NoSliceName _ := fun leadingColon segments hPart =>
      hNames leadingColon segments (List.mem_append_right _ hPart)
    exact .mk (fun _ => ⟨rfl, rfl⟩) (fun _ => rfl) hNullable .slice
      (.cons (ih hElement h.nullable_eq) .nil)
  | reference h hPlain _ ih =>
    have hTarget : imports.NoSliceName _ := fun leadingColon segments hPart =>
      hNames leadingColon segments (List.mem_append_right _ hPart)
    cases ih hTarget h.nullable_eq with
    | mk hSlice _ _ hArguments hEach =>
      exact .mk (fun hName => ⟨rfl, (hSlice hName).2⟩) (fun _ => rfl) hNullable
        (.reference hArguments) hEach
  | option hName h _ ih =>
    have hArgument : imports.NoSliceName _ := fun leadingColon segments hPart =>
      hNames leadingColon segments
        (mem_parts_typePath (.angle [_]) (List.mem_singleton_self _) hPart)
    cases ih hArgument h.nullable_eq with
    | mk hSlice hLifetime _ hArguments hEach =>
      exact .mk hSlice hLifetime hNullable (.option (optionArgument?_of_option hName) hArguments)
        hEach
  | @named tokens leadingColon front last arguments types ts hTypes hName hLength h ih =>
    have hPath := hNames leadingColon _ List.mem_cons_self
    rw [List.map_append, map_name_bareSegment] at hPath
    refine .mk (fun hSlice => absurd (eq_of_beq hSlice) hPath) nofun hNullable
      (.path hTypes (optionArgument?_of_named hTypes (hLength ▸ hName)))
      (List.forall₂_iff_zip.mpr ⟨hLength, fun hPair => ?_⟩)
    exact ih hPair (fun leadingColon segments hPart =>
      hNames leadingColon segments (mem_parts_typePath hTypes (List.of_mem_zip hPair).1 hPart))
      (h hPair).nullable_eq

/-- What is resolved is what the grammar accepts, and its flags say how it is written: no identifier
is the name that stands for a slice. -/
theorem resolve_grammar (imports : Imports) (e : TypeExpr) :
    ((∃ t, imports.resolve e = .ok t) ↔ imports.Accepts e) ∧
      (imports.Spelled → e.wellNamed = true →
        ∀ t, imports.resolve e = .ok t → imports.WrittenAs e t) :=
  ⟨exists_resolve_iff, fun hImports hNames _ h =>
    (resolves_of_resolve e h).writtenAs (noSliceName_of_wellNamed hImports hNames)⟩

theorem optionalPosts_grammar : (ofItems maybeScope).Accepts (optionalPosts "a") ∧
    (ofItems maybeScope).WrittenAs (optionalPosts "a") (optionalPostsRef "a") := by
  have hWellNamed : (optionalPosts "a").wellNamed = true := by decide +kernel
  obtain ⟨hAccepts, hWritten⟩ := resolve_grammar (ofItems maybeScope) (optionalPosts "a")
  exact ⟨hAccepts.mp ⟨_, resolve_optionalPosts "a"⟩,
    hWritten maybeScope_segments.spelled hWellNamed _ (resolve_optionalPosts "a")⟩

end Imports
end TraitClient
