import TraitClient.Emission.MethodBody
import TraitClient.Proofs.CodeRuns
import TraitClient.Proofs.Verdict

/-!
# The path of an endpoint

The expression for the path of a request evaluates to the template with the texts of the path
parameters in the place of the placeholders.  Literal text goes through a format string, so that its
braces are doubled and read back as single ones.
-/
namespace TraitClient

namespace Template

/-- A template with its placeholders replaced.  What does not begin a placeholder stays. -/
inductive Substituted (value : String → String) : List Char → List Char → Prop
  | done : Substituted value [] []
  | placeholder {word rest out : List Char} : word ≠ [] → (∀ c ∈ word, Text.isWord c = true) →
      Substituted value rest out →
      Substituted value (bracedWord word ++ rest) ((value (String.ofList word)).toList ++ out)
  | char {c : Char} {rest out : List Char} :
      (∀ word, word ≠ [] → (∀ c ∈ word, Text.isWord c = true) → ¬bracedWord word <+: c :: rest) →
      Substituted value rest out → Substituted value (c :: rest) (c :: out)

variable {value : String → String}

theorem placeholderAt?_eq_none_iff {s : List Char} :
    placeholderAt? s = none ↔
      ∀ word, word ≠ [] → (∀ c ∈ word, Text.isWord c = true) → ¬bracedWord word <+: s := by
  constructor
  · rintro hNone word hNonempty hWord ⟨after, hAfter⟩
    rw [placeholderAt?_eq_some_iff.mpr ⟨hNonempty, hWord, hAfter.symm⟩] at hNone
    cases hNone
  · intro hNowhere
    cases hAt : placeholderAt? s with
    | none => rfl
    | some found =>
      obtain ⟨word, after⟩ := found
      obtain ⟨hNonempty, hWord, rfl⟩ := placeholderAt?_eq_some_iff.mp hAt
      exact absurd (List.prefix_append _ _) (hNowhere word hNonempty hWord)

theorem Substituted.unique {text out out' : List Char} (h : Substituted value text out)
    (h' : Substituted value text out') : out = out' := by
  induction h generalizing out' with
  | done =>
    generalize hText : ([] : List Char) = text at h'
    cases h' with
    | done => rfl
    | placeholder => cases hText
    | char => cases hText
  | @placeholder word rest out hNonempty hWord _ ih =>
    generalize hText : bracedWord word ++ rest = text at h'
    cases h' with
    | done => cases hText
    | @placeholder word' rest' out' hNonempty' hWord' hRest' =>
      have hPrefix : bracedWord word <+: bracedWord word' ++ rest' := hText ▸ List.prefix_append _ _
      obtain rfl := eq_of_bracedWord_begins hWord hWord' hPrefix
      rw [ih (List.append_cancel_left hText ▸ hRest')]
    | char hNowhere _ =>
      exact absurd (hText ▸ List.prefix_append _ _) (hNowhere word hNonempty hWord)
  | @char c rest out hNowhere _ ih =>
    generalize hText : c :: rest = text at h'
    cases h' with
    | done => cases hText
    | placeholder hNonempty' hWord' _ =>
      exact absurd (hText ▸ List.prefix_append _ _) (hNowhere _ hNonempty' hWord')
    | char _ hRest' =>
      cases hText
      rw [ih hRest']

theorem substituted_self {s : List Char} (h : ∀ word, ¬Holds s word) : Substituted value s s := by
  induction s with
  | nil => exact .done
  | cons c rest ih =>
    refine .char (fun word hNonempty hWord hPrefix => ?_) (ih fun word hHolds => ?_)
    · exact h word ⟨hNonempty, hWord, hPrefix.isInfix⟩
    · exact h word ⟨hHolds.nonempty, hHolds.isWord,
        hHolds.braced.trans (List.suffix_cons c rest).isInfix⟩

def pieceText (value : String → String) : TemplatePiece → List Char
  | .text s => s.toList
  | .placeholder name => (value name).toList

theorem flatMap_textPiece (pending : List Char) :
    (textPiece pending).flatMap (pieceText value) = pending.reverse := by
  unfold textPiece
  split
  · rename_i hEmpty
    rw [List.isEmpty_iff.mp hEmpty]
    rfl
  · simp [pieceText]

theorem substituted_piecesFrom (value : String → String) (pending s : List Char) :
    ∃ out, (piecesFrom pending s).flatMap (pieceText value) = pending.reverse ++ out ∧
      Substituted value s out := by
  induction s using scan_induction generalizing pending with
  | nil => exact ⟨[], by simp [piecesFrom_nil, flatMap_textPiece], .done⟩
  | placeholder word after hNonempty hWord ih =>
    obtain ⟨out, hOut, hSubstituted⟩ := ih []
    refine ⟨_, ?_, .placeholder hNonempty hWord hSubstituted⟩
    rw [piecesFrom_bracedWord _ _ hNonempty hWord, List.flatMap_append, flatMap_textPiece,
      List.flatMap_cons, hOut]
    rfl
  | char c rest hAt ih =>
    obtain ⟨out, hOut, hSubstituted⟩ := ih (c :: pending)
    refine ⟨c :: out, ?_, .char (placeholderAt?_eq_none_iff.mp hAt) hSubstituted⟩
    rw [piecesFrom_cons _ hAt, hOut]
    simp

theorem substituted_pieces (value : String → String) (template : String) :
    Substituted value template.toList ((pieces template).flatMap (pieceText value)) := by
  obtain ⟨out, hOut, hSubstituted⟩ := substituted_piecesFrom value [] template.toList
  rw [pieces_eq, hOut]
  exact hSubstituted

end Template

namespace MethodBody

open Code (Expr Runtime Scope Value Data Run fill? eval evalAll displayed?)
open Template (Substituted Holds pieceText placeholderName?)
open Validation (PathKeysMatch)

variable {α : Type}

/-! ## Format strings of templates -/

theorem fill?_plain {c : Char} (hOpen : c ≠ '\x7b') (hClose : c ≠ '\x7d') (rest : List Char)
    (texts : List String) : fill? (c :: rest) texts = (fill? rest texts).map (c :: ·) := by
  rw [fill?, if_neg (by simp [hOpen, hClose])]
  · exact fun _ hEq _ => hOpen hEq
  · exact fun _ hEq _ => hClose hEq
  · exact fun _ _ _ _ hEq _ => hOpen hEq

theorem fill?_escapeBraces (s : String) (rest : List Char) (texts : List String) :
    fill? ((escapeBraces s).toList ++ rest) texts = (fill? rest texts).map (s.toList ++ ·) := by
  rw [escapeBraces, String.toList_ofList]
  induction s.toList with
  | nil => cases hRest : fill? rest texts <;> simp [hRest]
  | cons c s ih =>
    rw [List.flatMap_cons, List.append_assoc]
    by_cases hOpen : c = '\x7b'
    · subst hOpen
      simp only [decide_true, Bool.true_or, if_true, List.cons_append, List.nil_append]
      rw [fill?, ih, Option.map_map]
      rfl
    by_cases hClose : c = '\x7d'
    · subst hClose
      simp only [decide_true, Bool.or_true, if_true, List.cons_append, List.nil_append]
      rw [fill?, ih, Option.map_map]
      rfl
    simp only [hOpen, hClose, decide_false, Bool.or_self, Bool.false_eq_true, if_false,
      List.cons_append, List.nil_append]
    rw [fill?_plain hOpen hClose, ih, Option.map_map]
    rfl

theorem fill?_formatPieces (value : String → String) (pieces : List TemplatePiece) :
    fill? (pieces.flatMap fun p => (formatPiece p).toList)
        ((pieces.filterMap placeholderName?).map value) =
      some (pieces.flatMap (pieceText value)) := by
  induction pieces with
  | nil => rfl
  | cons piece pieces ih =>
    cases piece with
    | text s =>
      rw [List.filterMap_cons_none rfl, List.flatMap_cons, List.flatMap_cons]
      change fill? ((escapeBraces s).toList ++ _) _ = _
      rw [fill?_escapeBraces, ih]
      rfl
    | placeholder name =>
      have hBraces : (formatPiece (.placeholder name)).toList = ['\x7b', '\x7d'] := by
        simp [formatPiece]
      have hName : placeholderName? (.placeholder name) = some name := rfl
      rw [List.filterMap_cons_some hName, List.flatMap_cons, List.flatMap_cons, hBraces,
        List.map_cons, List.cons_append, List.cons_append, List.nil_append, fill?, ih]
      rfl

/-! ## Placeholders and their parameters -/

/-- In a valid method each placeholder has a parameter of its own. -/
theorem exists_boundParameter {types : RuntimeTypes} {m : Method}
    (hValid : Validation.fault? types m = none) {name : String}
    (hName : Holds m.template.toList name.toList) :
    ∃ p ∈ m.parameters, m.parameters.find? (fun p => p.pathKey? == some name) = some p ∧
      p.binding = .path name := by
  have hMatch : PathKeysMatch m :=
    Validation.fault?_eq_none_iff.mp hValid .pathPlaceholders (by decide)
  obtain ⟨q, hq, hBinding⟩ := (hMatch.complete name).mpr hName
  have hKey : (fun p : Parameter => p.pathKey? == some name) q = true := by
    simp [Validation.pathKey?_eq_some_iff.mpr hBinding]
  cases hFind : m.parameters.find? (fun p => p.pathKey? == some name) with
  | none => exact absurd hKey (List.find?_eq_none.mp hFind q hq)
  | some p =>
    have hFound : p.pathKey? = some name := by simpa using List.find?_some hFind
    exact ⟨p, List.mem_of_find?_eq_some hFind, rfl, Validation.pathKey?_eq_some_iff.mp hFound⟩

/-- A scope in which the path parameters of a method have texts by their keys. -/
def HoldsPath (rt : Runtime α) (scope : Scope α) (m : Method) (value : String → String) : Prop :=
  ∀ p ∈ m.parameters, ∀ key, p.binding = .path key →
    ∃ d, scope.lookup? p.name = some (.data d) ∧ rt.text d = value key

theorem evalAll_formatArguments {types : RuntimeTypes} {c : Context} {rt : Runtime α}
    {scope : Scope α} {value : String → String} (hValid : Validation.fault? types c.method = none)
    (hScope : HoldsPath rt scope c.method value) (pieces : List TemplatePiece)
    (hPieces : ∀ name, .placeholder name ∈ pieces → Holds c.method.template.toList name.toList) :
    ∃ vs, evalAll rt scope (pieces.filterMap (formatArgument? c)) = pure vs ∧
      vs.mapM (displayed? rt) = some ((pieces.filterMap placeholderName?).map value) := by
  induction pieces with
  | nil => exact ⟨[], rfl, rfl⟩
  | cons piece pieces ih =>
    obtain ⟨vs, hEval, hTexts⟩ := ih fun name hName => hPieces name (List.mem_cons_of_mem _ hName)
    cases piece with
    | text s => exact ⟨vs, hEval, hTexts⟩
    | placeholder name =>
      obtain ⟨p, hp, hFind, hBinding⟩ :=
        exists_boundParameter hValid (hPieces name List.mem_cons_self)
      obtain ⟨d, hLookup, hText⟩ := hScope p hp name hBinding
      have hArgument : formatArgument? c (.placeholder name) = some (.var p.name) := by
        rw [formatArgument?, placeholderParameter, hFind]
        rfl
      have hName : placeholderName? (.placeholder name) = some name := rfl
      refine ⟨.data d :: vs, ?_, ?_⟩
      · rw [List.filterMap_cons_some hArgument, evalAll, eval, hLookup, hEval]
        rfl
      · rw [List.filterMap_cons_some hName, List.mapM_cons, hTexts, displayed?, hText]
        rfl

theorem filterMap_formatArgument?_isEmpty (c : Context) (pieces : List TemplatePiece) :
    (pieces.filterMap (formatArgument? c)).isEmpty = true ↔
      ∀ name, .placeholder name ∉ pieces := by
  rw [List.isEmpty_iff, List.filterMap_eq_nil_iff]
  constructor
  · intro hNone name hName
    cases hNone _ hName
  · intro hNowhere piece hPiece
    cases piece with
    | text s => rfl
    | placeholder name => exact absurd hPiece (hNowhere name)

theorem eval_endpoint {types : RuntimeTypes} {c : Context} {rt : Runtime α} {scope : Scope α}
    {value : String → String} (hValid : Validation.fault? types c.method = none)
    (hScope : HoldsPath rt scope c.method value) :
    ∃ path, Substituted value c.method.template.toList path ∧
      eval rt scope (endpoint c) = pure (.text (String.ofList path)) := by
  have hPlaceholder (name : String) : .placeholder name ∈ Template.pieces c.method.template ↔
      Holds c.method.template.toList name.toList := Template.placeholder_mem_pieces_iff
  have hSubstituted := Template.substituted_pieces value c.method.template
  refine ⟨_, hSubstituted, ?_⟩
  rw [endpoint]
  split
  · rename_i hEmpty
    have hNone := (filterMap_formatArgument?_isEmpty c _).mp hEmpty
    have hSelf : Substituted value c.method.template.toList c.method.template.toList := by
      refine Template.substituted_self fun word hHolds => hNone (String.ofList word) ?_
      rw [hPlaceholder, String.toList_ofList]
      exact hHolds
    rw [eval, hSubstituted.unique hSelf, String.ofList_toList]
  · obtain ⟨vs, hEval, hTexts⟩ := evalAll_formatArguments hValid hScope
      (Template.pieces c.method.template) fun name hName => (hPlaceholder name).mp hName
    have hFill : fill? (String.join ((Template.pieces c.method.template).map formatPiece)).toList
        (((Template.pieces c.method.template).filterMap placeholderName?).map value) =
        some ((Template.pieces c.method.template).flatMap (pieceText value)) := by
      rw [String.toList_join, List.flatMap_map, fill?_formatPieces]
    rw [eval, eval, hEval, Run.pure_bind, hTexts, Run.ofOption_some, Run.pure_bind, hFill]
    rfl

/-- The expression of an endpoint gives the template with its placeholders replaced. -/
structure GivesPath (rt : Runtime α) (scope : Scope α) (c : Context) (value : String → String) :
    Prop where
  /-- The parameter of a placeholder is found, so that no variable is named by the placeholder. -/
  bound : ∀ name, Holds c.method.template.toList name.toList → ∃ p ∈ c.method.parameters,
    c.method.parameters.find? (fun p => p.pathKey? == some name) = some p ∧ p.binding = .path name
  literal : (∀ word, ¬Holds c.method.template.toList word) →
    endpoint c = .string c.method.template
  path : ∃! path, Substituted value c.method.template.toList path ∧
    eval rt scope (endpoint c) = pure (.text (String.ofList path))

theorem endpoint_givesPath (types : RuntimeTypes) (c : Context)
    (hValid : Validation.fault? types c.method = none) (rt : Runtime α) (scope : Scope α)
    (value : String → String) (hScope : HoldsPath rt scope c.method value) :
    GivesPath rt scope c value := by
  refine ⟨fun name hName => exists_boundParameter hValid hName, fun hNone => ?_, ?_⟩
  · have hEmpty : ((Template.pieces c.method.template).filterMap (formatArgument? c)).isEmpty = true :=
      (filterMap_formatArgument?_isEmpty c _).mpr fun name hName =>
        hNone _ (Template.placeholder_mem_pieces_iff.mp hName)
    rw [endpoint, if_pos hEmpty]
  · obtain ⟨path, hSubstituted, hEval⟩ := eval_endpoint hValid hScope
    exact ⟨path, ⟨hSubstituted, hEval⟩, fun _ hPath => hPath.1.unique hSubstituted⟩

/-- A method whose template has doubled, unbalanced and adjacent braces. -/
def bracedMethod : Method where
  name := "show"
  declaredIn := "PostApi"
  verb := .get
  template := "/\x7b\x7bid\x7d\x7d/\x7b\x7d\x7bid\x7d\x7bslug\x7d/\x7bx y\x7d"
  parameters :=
    [⟨"id", .named "u64" "u64", .path "id"⟩,
      ⟨"title", .named "std::string::String" "String", .path "slug"⟩]
  returnType :=
    { TypeRef.named "std::result::Result" "Result" with
      arguments := [.unit, .named "ApiError" "ApiError"] }
  modifiers := {}
  signature := ⟨true, true, false⟩

theorem bracedMethod_givesPath :
    GivesPath (α := String)
      ⟨fun d => match d with
        | .atom s => s
        | _ => "", fun _ => true⟩
      [⟨"id", false, .data (.atom "7")⟩, ⟨"title", false, .data (.atom "\x7bid\x7d")⟩]
      (.ofMethod bracedMethod) (fun key => if key = "id" then "7" else "\x7bid\x7d") ∧
    Substituted (fun key => if key = "id" then "7" else "\x7bid\x7d")
      bracedMethod.template.toList "/\x7b7\x7d/\x7b\x7d7\x7bid\x7d/\x7bx y\x7d".toList := by
  constructor
  · refine endpoint_givesPath (.ofPath "crate::runtime") (.ofMethod bracedMethod)
      (by decide +kernel) _ _ _ ?_
    intro p hp key hKey
    simp only [Context.ofMethod, bracedMethod, List.mem_cons, List.not_mem_nil, or_false] at hp
    obtain rfl | rfl := hp
    · cases hKey
      exact ⟨_, rfl, rfl⟩
    · cases hKey
      exact ⟨_, rfl, rfl⟩
  · have hPath : (Template.pieces bracedMethod.template).flatMap
        (pieceText fun key => if key = "id" then "7" else "\x7bid\x7d") =
        "/\x7b7\x7d/\x7b\x7d7\x7bid\x7d/\x7bx y\x7d".toList := by decide +kernel
    exact hPath ▸ Template.substituted_pieces _ bracedMethod.template

end MethodBody
end TraitClient
