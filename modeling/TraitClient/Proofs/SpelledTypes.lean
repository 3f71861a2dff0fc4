import TraitClient.Proofs.SourceNames
import TraitClient.Proofs.TypeReading
import TraitClient.Source.Parser.File

/-!
# What spelled types mean

Generated code spells a type by tokens.  They are a type again, and where other imports are in force
it is resolved to the same type but for the full names that these imports make of its paths.
-/
namespace TraitClient

open Source (Tokens TokenTree TypeExpr TypeSegment EndsType Grammar)
open Source.Parser
open Code (IsSegment IsPath pathSegments isGlobalPath takesArguments)

/-! ## Types under other imports -/

namespace TypeRef

mutual

/-- The type with the full names that the imports make of its paths. -/
def requalified (imports : Imports) : TypeRef → TypeRef
  | ⟨qualifiedName, path, arguments, nullable, byRef, lifetime⟩ =>
    { qualifiedName :=
        if path == "()" || qualifiedName == sliceName then qualifiedName
        else imports.qualify (pathSegments path) (isGlobalPath path)
      path
      arguments := requalifiedAll imports arguments
      nullable
      byRef
      lifetime }

def requalifiedAll (imports : Imports) : List TypeRef → List TypeRef
  | [] => []
  | t :: ts => t.requalified imports :: requalifiedAll imports ts

end

/-- The type itself, neither optional nor behind a reference. -/
def plain (t : TypeRef) : TypeRef := { t with nullable := false, byRef := false, lifetime := none }

def present (t : TypeRef) : TypeRef := { t with nullable := false }

/-- A type that is one when it is resolved, and that stays so where the imports are in force: no
path of it becomes an option. -/
inductive Settled (imports : Imports) : TypeRef → Prop
  | unit (nullable : Bool) {byRef : Bool} {lifetime : Option String}
      (hLifetime : byRef = false → lifetime = none) :
    Settled imports ⟨unitName, "()", [], nullable, byRef, lifetime⟩
  | slice (nullable : Bool) (lifetime : Option String) {element : TypeRef}
      (h : element.Settled imports) :
    Settled imports ⟨sliceName, sliceName, [element], nullable, true, lifetime⟩
  | path (nullable : Bool) {byRef : Bool} {lifetime : Option String}
      (hLifetime : byRef = false → lifetime = none) {qualifiedName : String} {leadingColon : Bool}
      {segments : List String} {arguments : List TypeRef} (hName : qualifiedName ≠ sliceName)
      (hNonempty : segments ≠ [])
      (hSegments : ∀ s ∈ segments, IsSegment s)
      (hOption : isOptionName (imports.qualify segments leadingColon) = true → arguments.length ≠ 1)
      (h : ∀ a ∈ arguments, a.Settled imports) :
    Settled imports
      ⟨qualifiedName, writtenPath leadingColon segments, arguments, nullable, byRef, lifetime⟩

theorem requalifiedAll_eq (imports : Imports) (ts : List TypeRef) :
    requalifiedAll imports ts = ts.map (·.requalified imports) := by
  induction ts with
  | nil => rfl
  | cons t ts ih => rw [requalifiedAll, ih, List.map_cons]

end TypeRef

/-! ## Tokens of types -/

namespace TypeRef

theorem listTokens_eq (ts : List TypeRef) :
    listTokens ts = Code.commaSeparated (ts.map (·.tokens)) := by
  induction ts with
  | nil => rfl
  | cons t ts ih =>
    cases ts with
    | nil => rfl
    | cons u ts =>
      rw [listTokens, ih]
      · rfl
      · simp

theorem tokens_present (t : TypeRef) :
    t.present.tokens = if t.byRef then
      Tokens.operator "&" ++ ((t.lifetime.map Code.lifetimeTokens).getD [] ++ t.plain.tokens)
      else t.plain.tokens := by
  obtain ⟨qualifiedName, path, arguments, nullable, byRef, lifetime⟩ := t
  cases byRef <;> cases lifetime <;> simp [present, plain, tokens, Code.op]

theorem pathTokens_eq (path : String) :
    Code.pathTokens path = pathStart (isGlobalPath path) (pathSegments path) := rfl

def optionPath : List String := ["core", "option", "Option"]

theorem pathTokens_option : Code.pathTokens "::core::option::Option" = pathStart true optionPath := by
  have hGlobal : isGlobalPath "::core::option::Option" = true := by decide +kernel
  have hSegments : pathSegments "::core::option::Option" = optionPath := by decide +kernel
  rw [pathTokens_eq, hGlobal, hSegments]

theorem tokens_nullable {t : TypeRef} (h : t.nullable = true) :
    t.tokens = pathStart true optionPath ++
      (Tokens.operator "<" ++ (t.present.tokens ++ Tokens.operator ">")) := by
  obtain ⟨qualifiedName, path, arguments, nullable, byRef, lifetime⟩ := t
  obtain rfl : nullable = true := h
  simp [present, tokens, pathTokens_option, Code.op]

theorem tokens_of_not_nullable {t : TypeRef} (h : t.nullable = false) : t.tokens = t.present.tokens := by
  obtain ⟨qualifiedName, path, arguments, nullable, byRef, lifetime⟩ := t
  obtain rfl : nullable = false := h
  rfl

end TypeRef

/-! ## What the types behind references are -/

namespace Imports

def resolveTarget (imports : Imports) : TypeExpr → Except TypeError TypeRef
  | .slice _ element => TypeRef.slice <$> imports.resolve element
  | e => imports.resolve e

def isSlice : TypeExpr → Bool
  | .slice .. => true
  | _ => false

theorem resolve_of_not_slice (imports : Imports) {e : TypeExpr} (h : isSlice e = false) :
    imports.resolve e = imports.resolveTarget e := by
  cases e with
  | slice => cases h
  | _ => rfl

theorem resolve_reference_target (imports : Imports) {tokens : Tokens} {lifetime : Option String}
    {e : TypeExpr} {t : TypeRef} (h : imports.resolveTarget e = .ok t.plain) :
    imports.resolve (.reference tokens lifetime false e) = .ok (t.plain.borrowed lifetime) := by
  cases e with
  | slice _ element =>
    rw [resolveTarget] at h
    cases hElement : imports.resolve element with
    | error error =>
      rw [hElement] at h
      cases h
    | ok element =>
      rw [hElement] at h
      have hSame : TypeRef.slice element = t.plain := Except.ok.inj h
      rw [resolve, hElement, ← hSame]
      rfl
  | _ =>
    rw [resolve_reference (by simp), resolve_of_not_slice imports rfl, h]
    rfl

end Imports

/-! ## Paths with arguments -/

namespace Imports

variable {imports : Imports} {tokens : Tokens} {leadingColon : Bool} {front : List String}
  {last : String}

theorem resolveLast_append_singleton (segments : List TypeSegment) (s : TypeSegment) :
    imports.resolveLast tokens (segments ++ [s]) = imports.resolveSegment tokens s := by
  induction segments with
  | nil => rfl
  | cons a segments ih =>
    cases segments with
    | nil => rfl
    | cons b segments => exact ih

theorem resolve_typePath {arguments : Source.TypeArguments} :
    imports.resolve (.path tokens leadingColon (front.map bareSegment ++ [TypeSegment.mk last arguments])) =
      imports.resolveArguments tokens arguments >>=
        imports.pathType tokens leadingColon (front ++ [last]) := by
  have hBare : ((front.map bareSegment ++ [TypeSegment.mk last arguments]).dropLast.any hasArguments) = false := by
    rw [List.dropLast_concat, List.any_map]
    exact List.any_eq_false.mpr fun s _ => Bool.false_ne_true
  have hNames : (front.map bareSegment ++ [TypeSegment.mk last arguments]).map (·.name) = front ++ [last] := by
    rw [List.map_append, map_name_bareSegment]
    rfl
  rw [resolve, hBare, resolveLast_append_singleton, hNames]
  rfl

theorem pathType_eq {segments : List String} {arguments : List TypeRef}
    (h : isOptionName (imports.qualify segments leadingColon) = true → arguments.length ≠ 1) :
    imports.pathType tokens leadingColon segments arguments =
      .ok { TypeRef.named (imports.qualify segments leadingColon)
        (writtenPath leadingColon segments) with arguments } := by
  unfold pathType writtenPath
  dsimp only
  split
  · rename_i hOption
    exact absurd rfl (h hOption)
  · rfl

theorem pathType_option {inner : TypeRef} (h : inner.nullable = false) :
    imports.pathType tokens true TypeRef.optionPath [inner] =
      .ok { inner with nullable := true } := by
  have hOption : isOptionName (imports.qualify TypeRef.optionPath true) = true := by
    have hName : imports.qualify TypeRef.optionPath true = joinPath TypeRef.optionPath := rfl
    rw [hName]
    decide +kernel
  simp [pathType, hOption, h]

end Imports

/-! ## Reading the tokens of a type -/

namespace TypeRef

/-- What a written type has to be where a reference to it may stand. -/
structure MeansTarget (t : TypeRef) (e : TypeExpr) : Prop where
  slice : Imports.isSlice e = true → t.path ≠ "()" ∧ t.qualifiedName = sliceName
  resolves : ∀ imports : Imports, t.Settled imports →
    imports.resolveTarget e = .ok (t.requalified imports).plain

/-- A written type that is resolved to the type wherever it stays what it is. -/
def Means (t : TypeRef) (e : TypeExpr) : Prop :=
  ∀ imports : Imports, t.Settled imports → imports.resolve e = .ok (t.requalified imports)

theorem resolveEach_means {imports : Imports} {tokens : Tokens} {ts : List TypeRef}
    {es : List TypeExpr} (h : List.Forall₂ Means ts es) (hSettled : ∀ t ∈ ts, t.Settled imports) :
    imports.resolveEach tokens (es.map .type) = .ok (ts.map (·.requalified imports)) := by
  induction h with
  | nil => rfl
  | cons hFirst _ ih =>
    obtain ⟨hFirstSettled, hRest⟩ := List.forall_mem_cons.mp hSettled
    rw [List.map_cons, Imports.resolveEach, Imports.resolveArgument, hFirst imports hFirstSettled,
      ih hRest]
    rfl

theorem meansTarget_unit {t : TypeRef} (h : t.path = "()") : t.MeansTarget .unit := by
  refine ⟨nofun, fun imports hSettled => ?_⟩
  cases hSettled with
  | unit => rfl
  | slice =>
    have hPath : sliceName ≠ "()" := by decide
    exact absurd h hPath
  | path _ _ _ hNonempty hSegments => exact absurd h (writtenPath_ne_unit hNonempty hSegments)

theorem meansTarget_slice {t first : TypeRef} {rest : List TypeRef} (hUnit : t.path ≠ "()")
    (hSlice : t.qualifiedName = sliceName) (hArguments : t.arguments = first :: rest)
    {tokens : Tokens} {element : TypeExpr} (h : first.Means element) :
    t.MeansTarget (.slice tokens element) := by
  refine ⟨fun _ => ⟨hUnit, hSlice⟩, fun imports hSettled => ?_⟩
  cases hSettled with
  | unit => exact absurd rfl hUnit
  | slice nullable lifetime hElement =>
    obtain ⟨rfl, rfl⟩ := List.cons.inj hArguments
    rw [Imports.resolveTarget, h imports hElement]
    rfl
  | path _ _ hName => exact absurd hSlice hName

theorem meansTarget_path {t : TypeRef} (hUnit : t.path ≠ "()") (hSlice : t.qualifiedName ≠ sliceName)
    {front : List String} {last : String} (hPath : pathSegments t.path = front ++ [last])
    {tokens : Tokens} {arguments : Source.TypeArguments}
    (h : ∀ imports : Imports, (∀ a ∈ t.arguments, a.Settled imports) →
      imports.resolveArguments tokens arguments = .ok (t.arguments.map (·.requalified imports))) :
    t.MeansTarget (.path tokens (isGlobalPath t.path)
      (front.map bareSegment ++ [TypeSegment.mk last arguments])) := by
  refine ⟨nofun, fun imports hSettled => ?_⟩
  rw [← Imports.resolve_of_not_slice imports rfl, Imports.resolve_typePath, ← hPath]
  cases hSettled with
  | unit => exact absurd rfl hUnit
  | slice => exact absurd rfl hSlice
  | @path nullable byRef lifetime hLifetime qualifiedName leadingColon segments arguments hName
      hNonempty hSegments hOption hSettled =>
    have hWritten := @pathSegments_writtenPath leadingColon segments hNonempty hSegments
    have hGlobal := @isGlobalPath_writtenPath leadingColon segments hNonempty hSegments
    have hLength : isOptionName (imports.qualify segments leadingColon) = true →
        (arguments.map (·.requalified imports)).length ≠ 1 := by simpa using hOption
    dsimp only at hUnit hSlice h
    rw [h imports hSettled, hWritten, hGlobal]
    refine (Imports.pathType_eq hLength).trans ?_
    simp [requalified, requalifiedAll_eq, plain, TypeRef.named, hUnit, hSlice, hWritten, hGlobal]

@[simp] theorem requalified_nullable (imports : Imports) (t : TypeRef) :
    (t.requalified imports).nullable = t.nullable := by
  cases t
  rfl

@[simp] theorem requalified_byRef (imports : Imports) (t : TypeRef) :
    (t.requalified imports).byRef = t.byRef := by
  cases t
  rfl

@[simp] theorem requalified_lifetime (imports : Imports) (t : TypeRef) :
    (t.requalified imports).lifetime = t.lifetime := by
  cases t
  rfl

theorem Settled.lifetime_eq_none {imports : Imports} {t : TypeRef} (h : t.Settled imports)
    (hPlain : t.byRef = false) : t.lifetime = none := by
  cases h with
  | unit _ hLifetime => exact hLifetime hPlain
  | slice => cases hPlain
  | path _ hLifetime => exact hLifetime hPlain

theorem means_reference {t : TypeRef} (hPresent : t.nullable = false) (hReference : t.byRef = true)
    {e : TypeExpr} (h : t.MeansTarget e) (tokens : Tokens) :
    t.Means (.reference tokens t.lifetime false e) := by
  intro imports hSettled
  rw [Imports.resolve_reference_target imports (h.resolves imports hSettled)]
  have hSame : ∀ u : TypeRef, u.nullable = false → u.byRef = true →
      u.plain.borrowed u.lifetime = u := by
    rintro ⟨⟩ rfl rfl
    rfl
  have hType := hSame (t.requalified imports) (by simpa using hPresent) (by simpa using hReference)
  rw [requalified_lifetime] at hType
  rw [hType]

theorem means_of_target {t : TypeRef} (hPresent : t.nullable = false) (hPlain : t.byRef = false)
    {e : TypeExpr} (h : t.MeansTarget e) : t.Means e := by
  intro imports hSettled
  have hSlice : Imports.isSlice e = false := by
    by_contra hSlice
    obtain ⟨hUnit, hName⟩ := h.slice (by simpa using hSlice)
    cases hSettled with
    | unit => exact hUnit rfl
    | slice => cases hPlain
    | path _ _ hOther => exact hOther hName
  rw [Imports.resolve_of_not_slice imports hSlice, h.resolves imports hSettled]
  have hSame : ∀ u : TypeRef, u.nullable = false → u.byRef = false → u.lifetime = none →
      u.plain = u := by
    rintro ⟨⟩ rfl rfl rfl
    rfl
  rw [hSame] <;> simp [hPresent, hPlain, hSettled.lifetime_eq_none hPlain]

theorem Settled.present {imports : Imports} {t : TypeRef} (h : t.Settled imports) :
    t.present.Settled imports := by
  cases h with
  | unit _ hLifetime => exact .unit false hLifetime
  | slice _ lifetime h => exact .slice false lifetime h
  | path _ hLifetime hName hNonempty hSegments hOption h =>
    exact .path false hLifetime hName hNonempty hSegments hOption h

/-- An optional type is the argument of a path that names the option in full. -/
theorem means_nullable {t : TypeRef} (hNullable : t.nullable = true) {e : TypeExpr}
    (h : t.present.Means e) (tokens : Tokens) :
    t.Means (.path tokens true (["core", "option"].map bareSegment ++
      [TypeSegment.mk "Option" (.angle [.type e])])) := by
  intro imports hSettled
  rw [Imports.resolve_typePath]
  have hArguments : imports.resolveArguments tokens (.angle [.type e]) =
      .ok [t.present.requalified imports] :=
    resolveEach_means (.cons h .nil) (by simpa using hSettled.present)
  have hOption : imports.pathType tokens true optionPath [t.present.requalified imports] =
      .ok { t.present.requalified imports with nullable := true } :=
    Imports.pathType_option (requalified_nullable imports t.present)
  rw [hArguments]
  refine hOption.trans ?_
  obtain ⟨qualifiedName, path, arguments, nullable, byRef, lifetime⟩ := t
  obtain rfl : nullable = true := hNullable
  rfl

/-! ### Reading -/

section Targets

variable {t : TypeRef} {d : Nat}

theorem readsTarget_slice (hUnit : t.path ≠ "()") (hSlice : t.qualifiedName = sliceName)
    (hNonempty : t.arguments ≠ [])
    (hArguments : ∀ a ∈ t.arguments, ∀ d, TokenTree.listSize a.tokens < d →
      ReadsType (Grammar.ofDepth d) true a.tokens a.Means)
    (hSize : TokenTree.listSize t.plain.tokens < d + 1) (allowPlus : Bool) :
    ReadsType (Grammar.ofDepth (d + 1)) allowPlus t.plain.tokens t.MeansTarget := by
  obtain ⟨first, rest, hFirst⟩ := List.exists_cons_of_ne_nil hNonempty
  have hTokens : t.plain.tokens = [.group .bracket first.tokens] := by
    simp [plain, tokens, hUnit, hSlice, hFirst, firstTokens, Code.brackets]
  rw [hTokens] at hSize ⊢
  have hFirstSize : TokenTree.listSize first.tokens < d := by
    simpa [TokenTree.listSize, TokenTree.size] using hSize
  refine (readsType_slice (hArguments first (by simp [hFirst]) d hFirstSize) allowPlus).imp ?_
  rintro _ ⟨tokens, element, hMeans, rfl⟩
  exact meansTarget_slice hUnit hSlice hFirst hMeans

theorem readsTarget_path (hUnit : t.path ≠ "()") (hSlice : t.qualifiedName ≠ sliceName)
    (hPath : IsPath t.path)
    (hTakes : t.arguments ≠ [] → ∀ s ∈ (pathSegments t.path).getLast?, takesArguments s = true)
    (hArguments : ∀ a ∈ t.arguments, ∀ d, TokenTree.listSize a.tokens < d →
      ReadsType (Grammar.ofDepth d) true a.tokens a.Means)
    (hSize : TokenTree.listSize t.plain.tokens < d + 1) (allowPlus : Bool) :
    ReadsType (Grammar.ofDepth (d + 1)) allowPlus t.plain.tokens t.MeansTarget := by
  obtain ⟨front, last, hNames⟩ : ∃ front last, pathSegments t.path = front ++ [last] :=
    ⟨_, _, (List.dropLast_append_getLast (splitPath_ne_nil _)).symm⟩
  have hSegments : ∀ s ∈ front ++ [last], IsSegment s := hNames ▸ hPath.segments
  have hHead : isGlobalPath t.path = true ∨ (front ++ [last]).head? ≠ some "try" :=
    hNames ▸ hPath.head
  cases hEmpty : t.arguments with
  | nil =>
    have hTokens : t.plain.tokens = pathStart (isGlobalPath t.path) (front ++ [last]) := by
      simp [plain, tokens, hUnit, hSlice, hEmpty, pathTokens_eq, hNames]
    rw [hTokens]
    refine (readsType_bare hSegments hHead allowPlus).imp ?_
    rintro _ ⟨tokens, rfl⟩
    refine meansTarget_path hUnit hSlice hNames fun imports _ => ?_
    rw [hEmpty]
    rfl
  | cons first rest =>
    have hTokens : t.plain.tokens = pathStart (isGlobalPath t.path) (front ++ [last]) ++
        (Tokens.operator "<" ++
          (Code.commaSeparated (t.arguments.map (·.tokens)) ++ Tokens.operator ">")) := by
      simp [plain, tokens, hUnit, hSlice, hEmpty, pathTokens_eq, hNames, listTokens_eq, Code.op]
    have hLast : takesArguments last = true := hTakes (by simp [hEmpty]) last (by simp [hNames])
    rw [hTokens] at hSize ⊢
    have hEach : ∀ a ∈ t.arguments, ReadsType (Grammar.ofDepth d) true a.tokens a.Means := by
      intro a ha
      have hItem : a.tokens ∈ t.arguments.map (·.tokens) := List.mem_map_of_mem ha
      have hMember := Source.listSize_le_separated (Code.op ",") hItem
      rw [TokenTree.listSize_append, TokenTree.listSize_append, TokenTree.listSize_append] at hSize
      have hOpening : TokenTree.listSize (Tokens.operator "<") = 1 := rfl
      refine hArguments a ha d (hMember.trans_lt ?_)
      rw [← Code.commaSeparated]
      omega
    refine (readsType_applied hSegments hHead hLast hEach allowPlus).imp ?_
    rintro _ ⟨written, es, hMeans, rfl⟩
    exact meansTarget_path hUnit hSlice hNames fun imports => resolveEach_means hMeans

theorem readsTarget (h : t.Legible)
    (hArguments : ∀ a ∈ t.arguments, ∀ d, TokenTree.listSize a.tokens < d →
      ReadsType (Grammar.ofDepth d) true a.tokens a.Means)
    (hSize : TokenTree.listSize t.plain.tokens < d) (allowPlus : Bool) :
    ReadsType (Grammar.ofDepth d) allowPlus t.plain.tokens t.MeansTarget := by
  obtain ⟨d, rfl⟩ := Nat.exists_eq_add_one_of_ne_zero (Nat.ne_zero_of_lt hSize)
  cases h with
  | mk _ hBase _ =>
    by_cases hUnit : t.path = "()"
    · have hTokens : t.plain.tokens = [.group .parenthesis []] := by
        simp [plain, tokens, hUnit, Code.parens]
      rw [hTokens]
      refine (readsType_unit allowPlus).imp ?_
      rintro _ rfl
      exact meansTarget_unit hUnit
    rcases hBase.resolve_left hUnit with ⟨hSlice, hNonempty⟩ | ⟨hSlice, hPath, hTakes⟩
    · exact readsTarget_slice hUnit hSlice hNonempty hArguments hSize allowPlus
    · exact readsTarget_path hUnit hSlice hPath hTakes hArguments hSize allowPlus

end Targets

theorem Legible.present {t : TypeRef} (h : t.Legible) : t.present.Legible := by
  cases h with
  | mk hLifetime hBase hArguments => exact .mk hLifetime hBase hArguments

theorem readsPresent {t : TypeRef} (h : t.Legible) (hPresent : t.nullable = false) {d : Nat}
    (hArguments : ∀ a ∈ t.arguments, ∀ d, TokenTree.listSize a.tokens < d →
      ReadsType (Grammar.ofDepth d) true a.tokens a.Means)
    (hSize : TokenTree.listSize t.tokens < d) (allowPlus : Bool) :
    ReadsType (Grammar.ofDepth d) allowPlus t.tokens t.Means := by
  have hTokens := tokens_present t
  have hSame : t.present.tokens = t.tokens := (tokens_of_not_nullable hPresent).symm
  rw [hSame] at hTokens
  cases hReference : t.byRef with
  | false =>
    rw [hReference, if_neg Bool.false_ne_true] at hTokens
    rw [hTokens] at hSize ⊢
    refine (readsTarget h hArguments hSize allowPlus).imp fun e hMeans => ?_
    exact means_of_target hPresent hReference hMeans
  | true =>
    rw [hReference, if_pos rfl] at hTokens
    rw [hTokens, TokenTree.listSize_append, TokenTree.listSize_append] at hSize
    obtain ⟨d, rfl⟩ := Nat.exists_eq_add_one_of_ne_zero (Nat.ne_zero_of_lt hSize)
    have hAmpersand : TokenTree.listSize (Tokens.operator "&") = 1 := rfl
    have hTarget := readsTarget h hArguments (d := d) (by omega) false
    rw [hTokens]
    refine (readsType_reference hTarget t.lifetime allowPlus).imp ?_
    rintro _ ⟨tokens, target, hMeans, rfl⟩
    exact means_reference hPresent hReference hMeans tokens

/-- The tokens of a legible type are read as what the type means. -/
theorem Legible.readsType {t : TypeRef} (h : t.Legible) {d : Nat}
    (hSize : TokenTree.listSize t.tokens < d) (allowPlus : Bool) :
    ReadsType (Grammar.ofDepth d) allowPlus t.tokens t.Means := by
  induction h generalizing d allowPlus with
  | @mk t hLifetime hBase hArguments ih =>
    have hLegible : t.Legible := .mk hLifetime hBase hArguments
    cases hNullable : t.nullable with
    | false => exact readsPresent hLegible hNullable (fun a ha d hd => ih a ha hd true) hSize allowPlus
    | true =>
      rw [tokens_nullable hNullable] at hSize ⊢
      obtain ⟨d, rfl⟩ := Nat.exists_eq_add_one_of_ne_zero (Nat.ne_zero_of_lt hSize)
      have hPresent : ReadsType (Grammar.ofDepth d) true t.present.tokens t.present.Means :=
        readsPresent hLegible.present rfl (fun a ha d hd => ih a ha hd true) (by
          simp only [TokenTree.listSize_append] at hSize
          have hOpening : TokenTree.listSize (Tokens.operator "<") = 1 := rfl
          omega) true
      have hSegments : ∀ s ∈ ["core", "option"] ++ ["Option"], Source.isSegment s = true := by
        decide +kernel
      have hOption : ReadsType (Grammar.ofDepth (d + 1)) allowPlus
          (pathStart true (["core", "option"] ++ ["Option"]) ++ (Tokens.operator "<" ++
            (Code.commaSeparated ([t.present].map (·.tokens)) ++ Tokens.operator ">"))) _ :=
        readsType_applied (fun s hs => Source.isSegment_iff.mp (hSegments s hs)) (.inl rfl)
          (by decide) (by simpa using hPresent) allowPlus
      refine hOption.imp ?_
      rintro _ ⟨written, es, hMeans, rfl⟩
      cases hMeans with
      | cons hFirst hRest =>
        cases hRest
        exact means_nullable hNullable hFirst written

theorem Legible.parse {t : TypeRef} (h : t.Legible) :
    ∃ e, Source.parseTypeTokens? t.tokens = some e ∧ t.Means e := by
  have hReads : ReadsType (Grammar.ofTokens t.tokens) true t.tokens t.Means :=
    h.readsType (by omega) true
  exact hReads.parse

end TypeRef

/-! ## Resolved types -/

namespace Imports

variable {imports : Imports} {inherited : Bool}

theorem SpellsPart.segments {leadingColon : Bool} {segments : List TypeSegment}
    (h : SpellsPart imports inherited (.path leadingColon segments)) :
    ∀ s ∈ segments.map (·.name), IsSegment s := by
  obtain ⟨hWellNamed, _⟩ := h
  have hEach := List.all_eq_true.mp (Bool.and_eq_true_iff.mp hWellNamed).2
  rintro name hName
  obtain ⟨s, hs, rfl⟩ := List.mem_map.mp hName
  exact Source.isSegment_iff.mp (Bool.and_eq_true_iff.mp (hEach s hs)).1

theorem qualify_ne_sliceName (h : imports.Spelled) {segments : List String}
    (hSegments : ∀ s ∈ segments, IsSegment s) (leadingColon : Bool) :
    imports.qualify segments leadingColon ≠ TypeRef.sliceName := by
  obtain ⟨full, hFull, hName⟩ := qualify_eq_joinPath h hSegments leadingColon
  rw [hName]
  exact joinPath_ne_sliceName hFull

theorem Made.settled {r : TypeRef} (hMade : Made imports (SpellsPart imports inherited) r)
    (h : imports.Spelled) : r.Settled imports := by
  induction hMade with
  | unit => exact .unit false fun _ => rfl
  | @slice _ lifetime _ _ ih => exact .slice false lifetime ih
  | reference _ _ hPlain ih =>
    cases ih with
    | unit nullable => exact .unit nullable nofun
    | slice => cases hPlain
    | path nullable _ hName hNonempty hSegments hOption hArguments =>
      refine TypeRef.Settled.path nullable ?_ hName hNonempty hSegments hOption hArguments
      nofun
  | option _ _ ih =>
    cases ih with
    | unit _ hLifetime => exact .unit true hLifetime
    | slice _ lifetime hElement => exact .slice true lifetime hElement
    | path _ hLifetime hName hNonempty hSegments hOption hArguments =>
      exact .path true hLifetime hName hNonempty hSegments hOption hArguments
  | path hGood hNonempty _ hNoOption _ ih =>
    exact .path false (fun _ => rfl) (qualify_ne_sliceName h hGood.segments _)
      (by simpa using hNonempty) hGood.segments hNoOption ih

theorem Made.requalified {r : TypeRef} (hMade : Made imports (SpellsPart imports inherited) r)
    (h : imports.Spelled) : r.requalified imports = r := by
  induction hMade with
  | unit => rfl
  | @slice element lifetime _ _ ih =>
    simp [TypeRef.slice, TypeRef.borrowed, TypeRef.requalified, TypeRef.requalifiedAll_eq,
      TypeRef.named, ih]
  | @reference inner lifetime _ _ _ ih =>
    have hSame : (inner.borrowed lifetime).requalified imports =
        (inner.requalified imports).borrowed lifetime := by
      cases inner
      rfl
    rw [hSame, ih]
  | @option inner _ _ ih =>
    have hSame : ({ inner with nullable := true } : TypeRef).requalified imports =
        { inner.requalified imports with nullable := true } := by
      cases inner
      rfl
    rw [hSame, ih]
  | @path leadingColon segments arguments hGood hNonempty _ _ _ ih =>
    have hNames : segments.map (·.name) ≠ [] := by simpa using hNonempty
    have hUnit := @writtenPath_ne_unit leadingColon _ hNames hGood.segments
    have hSlice := qualify_ne_sliceName h hGood.segments leadingColon
    have hWritten := @pathSegments_writtenPath leadingColon _ hNames hGood.segments
    have hGlobal := @isGlobalPath_writtenPath leadingColon _ hNames hGood.segments
    unfold writtenPath at hUnit hWritten hGlobal
    have hArguments : arguments.map (·.requalified imports) = arguments :=
      (List.map_congr_left ih).trans (List.map_id _)
    simp only [TypeRef.named, TypeRef.requalified, TypeRef.requalifiedAll_eq, hArguments, hWritten,
      hGlobal]
    simp [hUnit, hSlice]

end Imports

end TraitClient
