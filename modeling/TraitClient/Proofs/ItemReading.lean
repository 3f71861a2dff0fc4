import TraitClient.Proofs.SpelledTypes
import TraitClient.Proofs.StatementReading

/-!
# Reading items

The tokens of legible items are read as the items of a file.
-/
namespace TraitClient

open Source (Tokens TokenTree Grammar)
open Code (IsName IsPath IsTyped IsBlock pathSegments isGlobalPath)

namespace Source.Parser

variable {g : Grammar}

theorem reads_or_left {α : Type} {p q : Parser α} {s t : Tokens} {a : α} (h : Reads p s a t) :
    Reads (or p q) s a t := by
  obtain ⟨w, h⟩ := h
  exact ⟨w, by simp only [Parser.or, h]⟩

theorem reads_or_right {α : Type} {p q : Parser α} {s t : Tokens} {a : α} (hNone : p s = none)
    (h : Reads q s a t) : Reads (or p q) s a t := by
  obtain ⟨w, h⟩ := h
  exact ⟨w, by simp only [Parser.or, hNone, h]⟩

/-! ## Attributes -/

theorem reads_outerAttributes {contents : List Tokens} {attributes : List Attribute}
    (h : List.Forall₂ (fun content found => Reads (attributeContent g) content found [])
      contents attributes) {s : Tokens} (hs : peekOp "#" s = false) :
    Reads (outerAttributes g) (contents.flatMap Code.attributeTokens ++ s) attributes s := by
  have hSteps : Repeats (ifSees (peekOp "#") do
      op "#"
      brackets (attributeContent g)) (contents.flatMap Code.attributeTokens ++ s) attributes s := by
    induction h with
    | nil => exact .stops hs
    | @cons content found contents attributes hContent _ ih =>
      have hTokens : (content :: contents).flatMap Code.attributeTokens ++ s =
          Tokens.operator "#" ++ .group .bracket content ::
            (contents.flatMap Code.attributeTokens ++ s) := by
        simp [Code.attributeTokens, Code.op, Code.brackets]
      rw [hTokens]
      refine .sees (peekOp_operator "#" _)
        ((reads_op "#" _).bind (reads_group .bracket hContent _)) ?_ ih
      simp only [List.length_append, List.length_cons]
      omega
  exact hSteps.reads

theorem takes_outerAttributes {contents : List Tokens}
    (h : ∀ c ∈ contents, Takes (attributeContent g) c []) {s : Tokens} (hs : peekOp "#" s = false) :
    Takes (outerAttributes g) (contents.flatMap Code.attributeTokens ++ s) s := by
  have hAttributes : ∃ attributes, List.Forall₂
      (fun content found => Reads (attributeContent g) content found [])
      contents attributes := by
    induction contents with
    | nil => exact ⟨[], .nil⟩
    | cons content contents ih =>
      obtain ⟨⟨found, hContent⟩, hRest⟩ := List.forall_mem_cons.mp h
      obtain ⟨attributes, hMore⟩ := ih hRest
      exact ⟨found :: attributes, .cons hContent hMore⟩
  obtain ⟨attributes, hAttributes⟩ := hAttributes
  exact (reads_outerAttributes hAttributes hs).takes

def NoInnerAttributes (s : Tokens) : Prop := (peekOp "#" s && peek2 (peekOp "!") s) = false

theorem reads_noInnerAttributes {s : Tokens} (hs : NoInnerAttributes s) :
    Reads (innerAttributes g) s () s := by
  have hStops : (fun s => peekOp "#" s && peek2 (peekOp "!") s) s = false := hs
  exact (reads_whileSees_nil hStops).takes.skip

theorem noInnerAttributes_of_hash {s : Tokens} (hs : peekOp "#" s = false) : NoInnerAttributes s := by
  rw [NoInnerAttributes, hs, Bool.false_and]

theorem noInnerAttributes_attributes {contents : List Tokens} {s : Tokens} (hs : peekOp "#" s = false) :
    NoInnerAttributes (contents.flatMap Code.attributeTokens ++ s) := by
  cases contents with
  | nil => exact noInnerAttributes_of_hash hs
  | cons content contents =>
    simp [NoInnerAttributes, Code.attributeTokens, Code.op, Code.brackets, Tokens.operator,
      Tokens.ofOperatorChars, peek2, skipOne, peekOp]

theorem takes_docContent (text : String) : Takes (attributeContent g)
    ([.ident "doc"] ++ Tokens.operator "=" ++ [.literal text]) [] := by
  have hPath : Reads namePath ([.ident "doc"] ++ Tokens.operator "=" ++ [.literal text])
      ⟨false, ["doc"]⟩ (Tokens.operator "=" ++ [.literal text]) := ⟨_, rfl⟩
  refine (reads_sees _ _).then (hPath.then (Takes.bind ?_ fun _ => takes_pure _ []))
  refine (reads_rest _).then ((reads_op "=" _).then ((reads_rest _).then ?_))
  exact (reads_lit text []).then (takes_pure _ [])

theorem takes_allowContent : Takes (attributeContent g)
    [.ident "allow", .group .parenthesis [.ident "unused_variables"]] [] := ⟨_, _, rfl⟩

/-! ## Visibilities -/

theorem group_eq_none {α : Type} {d : Delimiter} (p : Parser α) {s : Tokens}
    (hs : peekGroup d s = false) : group d p s = none := by
  cases s with
  | nil => rfl
  | cons token s =>
    cases token with
    | group e body =>
      have hNot : d ≠ e := by simpa [peekGroup] using hs
      exact if_neg hNot
    | ident | punct | literal => rfl

theorem takes_visibility (v : TraitClient.Visibility) {s : Tokens}
    (hs : peekGroup .parenthesis s = false) : Takes visibility (Code.visibilityTokens v ++ s) s := by
  cases v with
  | everywhere =>
    refine (reads_wordIf "pub" s).then (Reads.takes (reads_or_right ?_ (reads_pure _ s)))
    exact bind_eq_none_of_left _ (group_eq_none _ hs)
  | crateOnly =>
    have hCrate : Reads restriction (.group .parenthesis [.ident "crate"] :: s) () s :=
      reads_group .parenthesis ⟨_, rfl⟩ s
    have hRestricted : Reads (do
        restriction
        pure Visibility.restricted) (.group .parenthesis [.ident "crate"] :: s) .restricted s :=
      hCrate.bind (reads_pure _ s)
    exact (reads_wordIf "pub" _).then (reads_or_left hRestricted).takes

theorem reads_noVisibility {s : Tokens} (hs : peekWord "pub" s = false) :
    Reads visibility s .inherited s := (reads_wordIf_false hs).bind (reads_pure _ s)

/-! ## Types -/

/-- The tokens are read as a type wherever a type may end behind them. -/
abbrev IsType (g : Grammar) (s : Tokens) : Prop := ReadsType g true s fun _ => True

theorem BeginsType.peekDots {s : Tokens} (h : BeginsType s) : peekOp "..." s = false := by
  cases h with
  | path h => exact h.peekOp (by decide)
  | unit | slice => simp [peekOp]
  | reference => rfl

theorem IsType.takes {s : Tokens} (h : IsType g s) {t : Tokens} (hEnds : EndsType t) :
    Takes (g.type true) (s ++ t) t := by
  obtain ⟨e, _, h⟩ := h.reads t hEnds
  exact ⟨e, h⟩

theorem EndsItem.endsType {t : Tokens} (h : EndsItem t) : EndsType t := by
  rcases h with rfl | ⟨t, rfl⟩
  · exact endsType_nil
  · exact endsType_op "," (by simp) t

theorem readsType_names {isGlobal : Bool} {names : List String} (h : IsNamePath isGlobal names)
    (allowPlus : Bool) :
    ReadsType (Grammar.step g) allowPlus (pathStart isGlobal names) fun _ => True := by
  obtain ⟨front, last, rfl⟩ : ∃ front last, names = front ++ [last] :=
    ⟨_, _, (List.dropLast_append_getLast h.nonempty).symm⟩
  exact (readsType_bare h.segments h.head allowPlus).imp fun _ _ => trivial

theorem takes_names {isGlobal : Bool} {names : List String} (h : IsNamePath isGlobal names)
    {t : Tokens} (hEnds : EndsType t) :
    Takes ((Grammar.step g).type true) (pathStart isGlobal names ++ t) t :=
  IsType.takes (readsType_names h true) hEnds

/-! ## Generics -/

theorem reads_noGenerics {s : Tokens} (hs : peekOp "<" s = false) : Reads (generics g) s false s := by
  refine (reads_sees _ s).bind ?_
  rw [hs]
  exact reads_pure false s

theorem reads_noWhere {s : Tokens} (hs : peekWord "where" s = false) :
    Reads (whereClause g) s () s := by
  refine (reads_sees _ s).bind ?_
  rw [hs]
  exact reads_pure () s

/-! ## Parameters -/

def typed (name : String) (type : Tokens) : Tokens := .ident name :: (Tokens.operator ":" ++ type)

theorem receiver_eq_none {name : String} (hName : isPlainName name = true) (s : Tokens) :
    receiver g (.ident name :: s) = none := by
  refine bind_eq_none (reads_opIf_false rfl) (bind_eq_none (reads_wordIf_false
    (peekWord_of_isPlainName hName (by decide) s)) ?_)
  have hSelf : word "self" (.ident name :: s) = none := by
    simp [word, ne_of_isPlainName hName (show "self" ∈ keywords by decide)]
  exact bind_eq_none_of_left _ hSelf

theorem reads_typedParameter {name : String} (hName : isPlainName name = true) {type t : Tokens}
    {Means : TypeExpr → Prop} (hType : ReadsType (Grammar.step g) true type Means) (ht : EndsItem t)
    (attributes : List Attribute) :
    ∃ e, Means e ∧ Reads (or (some <$> receiver (Grammar.step g)) (typedParameter (Grammar.step g) attributes))
      (typed name type ++ t) (some (.typed attributes (some name) e)) t := by
  obtain ⟨e, hMeans, hReads⟩ := hType.reads t ht.endsType
  refine ⟨e, hMeans, reads_or_right ?_ ?_⟩
  · exact bind_eq_none_of_left (pure ∘ some) (receiver_eq_none hName _)
  · have hPattern : Reads (Grammar.step g).pattern (typed name type ++ t) (.plainName name)
        (Tokens.operator ":" ++ (type ++ t)) :=
      reads_namePattern hName (endsName_op ":" (by simp) (type ++ t)) false
    refine (reads_rest _).bind ?_
    rw [if_neg (by simp [typed, peekOp, peekChars, Tokens.operator, Tokens.ofOperatorChars])]
    refine hPattern.bind ((reads_op ":" _).bind ((reads_opIf_false ?_).bind ?_))
    · exact (hType.begins.append t).peekDots
    · exact hReads.bind (reads_pure _ t)

theorem reads_noAttributes {s : Tokens} (hs : peekOp "#" s = false) :
    Reads (outerAttributes g) s [] s := reads_whileSees_nil hs

def isReceiver : FunctionParameter → Bool
  | .receiver .. => true
  | .typed .. => false

/-- How a parameter begins that is neither variadic nor behind attributes. -/
structure BeginsParameter (s : Tokens) : Prop where
  nonempty : peekEnd s = false
  hash : peekOp "#" s = false
  dots : peekOp "..." s = false

theorem takes_parametersStep {isFirst : Bool} {fuel : Nat} {s t : Tokens} {p : FunctionParameter}
    (hBegins : BeginsParameter s) (hPlace : (isFirst || !isReceiver p) = true)
    (hFound : Reads (or (some <$> receiver g) (typedParameter g [])) s (some p) t)
    (hMore : t = [] ∨ ∃ u, t = Tokens.operator "," ++ u ∧ Takes (parameters.go g false fuel) u []) :
    Takes (parameters.go g isFirst (fuel + 1)) s [] := by
  have hRest : Takes (do
      guard (isFirst || !isReceiver p)
      if ← sees peekEnd then pure [p] else
      comma
      let more ← parameters.go g false fuel
      pure (p :: more)) t [] := by
    refine (reads_guard hPlace t).then ((reads_sees peekEnd t).then ?_)
    rcases hMore with rfl | ⟨u, rfl, hMore⟩
    · exact takes_pure [p] []
    · exact (reads_op "," u).then (hMore.bind fun more => takes_pure (p :: more) [])
  rw [parameters.go]
  refine (reads_sees _ s).then ?_
  rw [hBegins.nonempty, if_neg Bool.false_ne_true]
  refine (reads_noAttributes hBegins.hash).then ((reads_opIf_false hBegins.dots).then ?_)
  rw [if_neg Bool.false_ne_true]
  refine hFound.then ?_
  cases p <;> exact hRest

theorem reads_parameters_of_go {s t : Tokens} {ps : List FunctionParameter}
    (h : Reads (parameters.go g true (s.length + 1)) s ps t) : Reads (parameters g) s ps t := h

theorem takes_parameters_of_go {s t : Tokens}
    (h : Takes (parameters.go g true (s.length + 1)) s t) : Takes (parameters g) s t := h

end Source.Parser

/-! ## Parts of generated functions -/

namespace Code

open Source.Parser

variable {g : Grammar} {rt : Source.PathExpr}

theorem CodeType.Legible.readsType (hRuntime : rt.IsPlain) {type : CodeType} (h : type.Legible)
    {d : Nat} (hSize : TokenTree.listSize (type.tokens rt) < d) :
    IsType (Grammar.ofDepth d) (type.tokens rt) := by
  obtain ⟨d, rfl⟩ := Nat.exists_eq_add_one_of_ne_zero (Nat.ne_zero_of_lt hSize)
  have hRuntimePath {name : String} (hName : IsName name) :=
    Expr.isNamePath_runtime hRuntime (List.forall_mem_singleton.mpr hName)
  cases h with
  | model h => exact (h.readsType hSize true).imp fun _ _ => trivial
  | selfType =>
    have hSelf : IsNamePath false ["Self"] :=
      ⟨by simp, List.forall_mem_singleton.mpr ⟨by decide, .inr (by decide)⟩, .inr (by decide)⟩
    exact readsType_names hSelf true
  | named hName => exact readsType_names (.singleton hName) true
  | runtime hName =>
    rw [tokens, runtimeTokens_eq hRuntime]
    exact readsType_names (hRuntimePath hName) true
  | runtimeReference hName =>
    rw [tokens, TokenTree.listSize_append] at hSize
    have hAmpersand : TokenTree.listSize (op "&") = 1 := rfl
    obtain ⟨d, rfl⟩ := Nat.exists_eq_add_one_of_ne_zero (show d ≠ 0 by omega)
    rw [tokens, runtimeTokens_eq hRuntime]
    exact (readsType_reference (readsType_names (hRuntimePath hName) false) none true).imp
      fun _ _ => trivial

theorem typedTokens_eq (p : String × CodeType) :
    typedTokens rt p = typed p.1 (p.2.tokens rt) := by
  simp [typedTokens, typed, ident, op]

theorem reads_listedParameter (hRuntime : rt.IsPlain) {p : String × CodeType} (h : IsTyped p) {d : Nat}
    (hSize : TokenTree.listSize (typedTokens rt p) ≤ d) {t : Tokens} (ht : EndsItem t) :
    BeginsParameter (typedTokens rt p ++ t) ∧
      ∃ e, Reads (or (some <$> receiver (Grammar.ofDepth (d + 1)))
        (typedParameter (Grammar.ofDepth (d + 1)) []))
        (typedTokens rt p ++ t) (some (.typed [] (some p.1) e)) t := by
  rw [typedTokens_eq] at hSize ⊢
  simp only [typed, TokenTree.listSize, TokenTree.listSize_append] at hSize
  have hType : IsType (Grammar.step (Grammar.ofDepth d)) (p.2.tokens rt) :=
    h.type.readsType hRuntime (d := d + 1) (by omega)
  obtain ⟨e, _, hReads⟩ := reads_typedParameter h.name.plain hType ht []
  exact ⟨⟨rfl, rfl, rfl⟩, e, hReads⟩

theorem commaSeparated_cons_cons (a b : Tokens) (rest : List Tokens) :
    commaSeparated (a :: b :: rest) = a ++ (op "," ++ commaSeparated (b :: rest)) :=
  List.append_assoc a (op ",") _

theorem takes_typedParameters (hRuntime : rt.IsPlain) {ps : List (String × CodeType)}
    (h : ∀ p ∈ ps, IsTyped p) {d : Nat}
    (hSize : TokenTree.listSize (commaSeparated (ps.map (typedTokens rt))) ≤ d)
    (isFirst : Bool) {fuel : Nat} (hFuel : ps.length < fuel) :
    Takes (parameters.go (Grammar.ofDepth (d + 1)) isFirst fuel)
      (commaSeparated (ps.map (typedTokens rt))) [] := by
  obtain ⟨fuel, rfl⟩ := Nat.exists_eq_add_one_of_ne_zero (Nat.ne_zero_of_lt hFuel)
  induction ps generalizing isFirst fuel with
  | nil => exact (reads_sees _ []).then (takes_pure [] [])
  | cons p ps ih =>
    obtain ⟨hHead, hRest⟩ := List.forall_mem_cons.mp h
    have hPlace (e : Source.TypeExpr) : (isFirst || !isReceiver (.typed [] (some p.1) e)) = true :=
      Bool.or_true isFirst
    cases ps with
    | nil =>
      obtain ⟨hBegins, e, hReads⟩ := reads_listedParameter hRuntime hHead hSize (.inl rfl)
      rw [List.append_nil] at hBegins hReads
      exact takes_parametersStep hBegins (hPlace e) hReads (.inl rfl)
    | cons next ps =>
      rw [List.map_cons, List.map_cons, commaSeparated_cons_cons, ← List.map_cons] at hSize ⊢
      simp only [TokenTree.listSize_append] at hSize
      have hLength : (next :: ps).length < fuel := Nat.lt_of_succ_lt_succ hFuel
      obtain ⟨fuel, rfl⟩ := Nat.exists_eq_add_one_of_ne_zero (Nat.ne_zero_of_lt hLength)
      obtain ⟨hBegins, e, hReads⟩ :=
        reads_listedParameter hRuntime hHead (d := d) (by omega) (.inr ⟨_, rfl⟩)
      exact takes_parametersStep hBegins (hPlace e) hReads
        (.inr ⟨_, rfl, ih hRest (by omega) false fuel hLength⟩)

theorem length_le_commaSeparated (ps : List (String × CodeType)) :
    ps.length ≤ (commaSeparated (ps.map (typedTokens rt))).length := by
  induction ps with
  | nil => exact Nat.zero_le _
  | cons p ps ih =>
    cases ps with
    | nil => simp [commaSeparated, separated, typedTokens]
    | cons next ps =>
      have hComma : (op ",").length = 1 := rfl
      rw [List.map_cons, List.map_cons, commaSeparated_cons_cons, ← List.map_cons]
      simp only [List.length_cons, List.length_append] at ih ⊢
      omega

theorem reads_selfParameter (s : Tokens) :
    BeginsParameter (op "&" ++ .ident "self" :: s) ∧
      Reads (or (some <$> receiver g) (typedParameter g [])) (op "&" ++ .ident "self" :: s)
        (some (.receiver true false)) s := by
  refine ⟨⟨rfl, rfl, rfl⟩, reads_or_left (Reads.map ?_ some)⟩
  refine (reads_opIf "&" _).bind ((reads_ifSees_none rfl).takes.skip.bind ?_)
  exact (reads_wordIf_false rfl).bind ((reads_word "self" s).bind (reads_pure _ s))

namespace Function

variable {f : Function}

def parameterTokens (rt : Source.PathExpr) (f : Function) : Tokens :=
  if f.takesSelf then
    op "&" ++ ident "self" :: (op "," ++ commaSeparated (f.parameters.map (typedTokens rt)))
  else commaSeparated (f.parameters.map (typedTokens rt))

def signatureTokens (rt : Source.PathExpr) (f : Function) : Tokens :=
  (if f.isAsync then [ident "async"] else []) ++
    ident "fn" :: ident f.name :: parens (f.parameterTokens rt) :: (op "->" ++ f.output.tokens rt)

def attributeContents (f : Function) : List Tokens :=
  (f.comment.map fun text => [ident "doc"] ++ op "=" ++ [stringToken text]).toList ++
    if f.allowsUnused then [[ident "allow", parens [ident "unused_variables"]]] else []

theorem tokens_eq (rt : Source.PathExpr) (f : Function) :
    f.tokens rt = f.attributeContents.flatMap attributeTokens ++
      (((f.visibility.map visibilityTokens).getD []) ++
        (f.signatureTokens rt ++ [braces (Statement.listTokens rt f.body)])) := by
  obtain ⟨allowsUnused, comment, visibility, isAsync, name, takesSelf, parameters, output, body⟩ := f
  cases comment <;> cases visibility <;> cases allowsUnused <;> cases takesSelf <;>
    simp [tokens, attributeContents, signatureTokens, parameterTokens, docTokens]

theorem Legible.takes_parameters (hRuntime : rt.IsPlain) (h : f.Legible) {d : Nat}
    (hSize : TokenTree.listSize (f.parameterTokens rt) ≤ d) :
    Takes (Source.Parser.parameters (Grammar.ofDepth (d + 1))) (f.parameterTokens rt) [] := by
  have hEnough : f.parameters.length ≤ (commaSeparated (f.parameters.map (typedTokens rt))).length :=
    length_le_commaSeparated f.parameters
  refine takes_parameters_of_go ?_
  unfold parameterTokens at hSize ⊢
  cases hSelf : f.takesSelf with
  | false =>
    rw [hSelf, if_neg Bool.false_ne_true] at hSize
    rw [if_neg Bool.false_ne_true]
    exact takes_typedParameters hRuntime h.parameters hSize true (Nat.lt_succ_of_le hEnough)
  | true =>
    rw [hSelf, if_pos rfl] at hSize
    rw [if_pos rfl]
    simp only [TokenTree.listSize_append, TokenTree.listSize] at hSize
    obtain ⟨hBegins, hReads⟩ := reads_selfParameter (g := Grammar.ofDepth (d + 1))
      (op "," ++ commaSeparated (f.parameters.map (typedTokens rt)))
    refine takes_parametersStep hBegins rfl hReads (.inr ⟨_, rfl, ?_⟩)
    refine takes_typedParameters hRuntime h.parameters (by omega) false ?_
    simp only [List.length_append, List.length_cons]
    omega

theorem Legible.takes_signature (hRuntime : rt.IsPlain) (h : f.Legible) {d : Nat}
    (hSize : TokenTree.listSize (f.signatureTokens rt) ≤ d) (body t : Tokens) :
    Takes (signature (Grammar.ofDepth (d + 1)) false) (f.signatureTokens rt ++ .group .brace body :: t)
      (.group .brace body :: t) := by
  simp only [signatureTokens, TokenTree.listSize_append, TokenTree.listSize, TokenTree.size, ident,
    parens] at hSize
  obtain ⟨e, hOutput⟩ := (h.output.readsType hRuntime (d := d + 1) (by omega)).takes
    (Source.endsType_group .brace body t)
  have hReturn : Reads (returnType (Grammar.ofDepth (d + 1)) true)
      (op "->" ++ (f.output.tokens rt ++ .group .brace body :: t)) (some e) (.group .brace body :: t) :=
    reads_ifSees (peekOp_operator "->" _) ((reads_op "->" _).bind hOutput)
  obtain ⟨parameters, hParameters⟩ := h.takes_parameters hRuntime (d := d) (by omega)
  have hTokens : f.signatureTokens rt ++ .group .brace body :: t =
      (if f.isAsync then [.ident "async"] else []) ++ .ident "fn" :: .ident f.name ::
        .group .parenthesis (f.parameterTokens rt) ::
          (op "->" ++ (f.output.tokens rt ++ .group .brace body :: t)) := by
    simp [signatureTokens, ident, parens]
  have hAsync (s : Tokens) : Reads (wordIf "async")
      ((if f.isAsync then [.ident "async"] else []) ++ .ident "fn" :: s) f.isAsync (.ident "fn" :: s) := by
    cases f.isAsync with
    | false => exact reads_wordIf_false rfl
    | true => exact reads_wordIf "async" _
  have hConst (s : Tokens) : Source.peekWord "const"
      ((if f.isAsync then [.ident "async"] else []) ++ .ident "fn" :: s) = false := by
    cases f.isAsync <;> rfl
  rw [hTokens]
  refine (reads_wordIf_false (hConst _)).takes.skip.then ((hAsync _).then ?_)
  refine (reads_wordIf_false rfl).then ((reads_sees _ _).then ?_)
  refine (reads_word "fn" _).then ((reads_ident h.name.plain _).then ?_)
  refine (reads_noGenerics (by simp [Source.peekOp])).then
    ((reads_group .parenthesis hParameters _).then (hReturn.then ?_))
  exact (reads_noWhere rfl).then (takes_pure _ _)

theorem takes_attributes (f : Function) {s : Tokens} (hs : Source.peekOp "#" s = false) :
    Takes (outerAttributes g) (f.attributeContents.flatMap attributeTokens ++ s) s := by
  refine takes_outerAttributes (fun content hContent => ?_) hs
  rcases List.mem_append.mp hContent with hDoc | hAllow
  · obtain ⟨text, _, rfl⟩ := Option.map_eq_some_iff.mp (Option.mem_toList.mp hDoc)
    exact takes_docContent _
  · split at hAllow
    · obtain rfl := List.mem_singleton.mp hAllow
      exact takes_allowContent
    · cases hAllow

theorem takes_functionVisibility (v : Option TraitClient.Visibility) {s : Tokens}
    (hGroup : Source.peekGroup .parenthesis s = false) (hWord : Source.peekWord "pub" s = false) :
    Takes Source.Parser.visibility ((v.map visibilityTokens).getD [] ++ s) s := by
  cases v with
  | none => exact (reads_noVisibility hWord).takes
  | some v => exact takes_visibility v hGroup

/-- How the tokens behind the visibility of a function begin. -/
structure BeginsSignature (s : Tokens) : Prop where
  hash : Source.peekOp "#" s = false
  group : Source.peekGroup .parenthesis s = false
  notPub : Source.peekWord "pub" s = false
  notDefault : Source.peekWord "default" s = false
  signature : (Source.peekWord "fn" s || peekSignature false s) = true

theorem beginsSignature (rt : Source.PathExpr) (f : Function) (t : Tokens) :
    BeginsSignature (f.signatureTokens rt ++ t) := by
  unfold signatureTokens
  cases f.isAsync <;> exact ⟨rfl, rfl, rfl, rfl, rfl⟩

theorem BeginsSignature.peekHash {s : Tokens} (h : BeginsSignature s) (v : Option TraitClient.Visibility) :
    Source.peekOp "#" ((v.map visibilityTokens).getD [] ++ s) = false := by
  rcases v with _ | ⟨⟨⟩⟩
  · exact h.hash
  · rfl
  · rfl

/-- A signature with a block is taken as an associated function and as a free one. -/
theorem Legible.takes_definition (hRuntime : rt.IsPlain) (h : f.Legible) {d : Nat}
    (hSize : 2 * TokenTree.listSize (f.tokens rt) + 5 ≤ d) (t : Tokens) :
    Takes (do
      skip (signature (Grammar.ofDepth d) false)
      skip (bodyOrSemicolon (Grammar.ofDepth d)))
      (f.signatureTokens rt ++ .group .brace (Statement.listTokens rt f.body) :: t) t := by
  simp only [tokens_eq, TokenTree.listSize_append, TokenTree.listSize, TokenTree.size, braces] at hSize
  obtain ⟨d, rfl⟩ := Nat.exists_eq_add_of_le' (show 1 ≤ d by omega)
  refine (h.takes_signature hRuntime (by omega) _ t).skip.then ?_
  have hBody : Takes (bodyOrSemicolon (Grammar.ofDepth (d + 1)))
      (.group .brace (Statement.listTokens rt f.body) :: t) t := by
    refine (reads_sees _ _).then ?_
    rw [show Source.peekOp ";" (.group .brace (Statement.listTokens rt f.body) :: t) = false by
      simp [Source.peekOp], if_neg Bool.false_ne_true]
    exact (h.body.reads hRuntime (by omega) t).then (takes_pure true t)
  exact hBody.skip.takes

theorem tokens_append (f : Function) (t : Tokens) :
    f.tokens rt ++ t = f.attributeContents.flatMap attributeTokens ++
      (((f.visibility.map visibilityTokens).getD []) ++
        (f.signatureTokens rt ++ .group .brace (Statement.listTokens rt f.body) :: t)) := by
  simp [tokens_eq, braces]

theorem Legible.takes_implMember (hRuntime : rt.IsPlain) (h : f.Legible) {d : Nat}
    (hSize : 2 * TokenTree.listSize (f.tokens rt) + 5 ≤ d) (t : Tokens) :
    Takes (implMember (Grammar.ofDepth d)) (f.tokens rt ++ t) t := by
  have hBegins := f.beginsSignature rt (.group .brace (Statement.listTokens rt f.body) :: t)
  rw [tokens_append]
  refine (f.takes_attributes (hBegins.peekHash f.visibility)).skip.then ?_
  refine (takes_functionVisibility f.visibility hBegins.group hBegins.notPub).bind fun vis => ?_
  refine (reads_sees _ _).then ?_
  rw [hBegins.notDefault, Bool.false_and, if_neg Bool.false_ne_true]
  refine (reads_pure false _).then ((reads_rest _).then ?_)
  rw [if_pos hBegins.signature]
  exact h.takes_definition hRuntime hSize t

theorem Legible.takes_item (hRuntime : rt.IsPlain) (h : f.Legible) {d : Nat}
    (hSize : 2 * TokenTree.listSize (f.tokens rt) + 5 ≤ d) (t : Tokens) :
    Takes (itemStep (Grammar.ofDepth d)) (f.tokens rt ++ t) t := by
  have hBegins := f.beginsSignature rt (.group .brace (Statement.listTokens rt f.body) :: t)
  rw [tokens_append]
  refine (f.takes_attributes (hBegins.peekHash f.visibility)).bind fun attributes => ?_
  refine (takes_functionVisibility f.visibility hBegins.group hBegins.notPub).bind fun vis => ?_
  refine (reads_rest _).then ?_
  rw [if_pos hBegins.signature]
  exact (h.takes_definition hRuntime hSize t).bind fun _ => takes_pure _ t

end Function

/-! ## Items -/

theorem takes_commaEnded {α β : Type} {item : Source.Parser β} {tokens : α → Tokens} {as : List α}
    (hNonempty : ∀ a ∈ as, tokens a ≠ [])
    (h : ∀ a ∈ as, ∀ t, Takes item (tokens a ++ (op "," ++ t)) (op "," ++ t)) :
    Takes (commaList item) (as.flatMap fun a => tokens a ++ op ",") [] := by
  have hSeparates : ∃ bs, Separates comma Source.peekEnd item
      (as.flatMap fun a => tokens a ++ op ",") bs [] := by
    induction as with
    | nil => exact ⟨[], .nil rfl⟩
    | cons a as ih =>
      obtain ⟨hHead, hRest⟩ := List.forall_mem_cons.mp h
      obtain ⟨hFull, hNonempty⟩ := List.forall_mem_cons.mp hNonempty
      obtain ⟨bs, hMore⟩ := ih hNonempty hRest
      obtain ⟨b, hItem⟩ := hHead (as.flatMap fun a => tokens a ++ op ",")
      rw [List.flatMap_cons, List.append_assoc]
      have hStarts (t : Tokens) : Source.peekEnd (tokens a ++ t) = false := by
        simp [Source.peekEnd, hFull]
      refine ⟨b :: bs, .cons (hStarts _) hItem rfl (reads_op "," _) ?_ hMore⟩
      have hComma : (op ",").length = 1 := rfl
      simp only [List.length_append]
      omega
  obtain ⟨bs, hSeparates⟩ := hSeparates
  exact hSeparates.reads.takes

theorem takes_namedField (hRuntime : rt.IsPlain) {p : String × CodeType} (h : IsTyped p) {d : Nat}
    (hSize : TokenTree.listSize (typedTokens rt p) < d) (t : Tokens) :
    Takes (namedField (Grammar.ofDepth d)) (typedTokens rt p ++ (op "," ++ t)) (op "," ++ t) := by
  rw [typedTokens_eq] at hSize ⊢
  simp only [typed, TokenTree.listSize, TokenTree.listSize_append] at hSize
  have hType := (h.type.readsType hRuntime (d := d) (by omega)).takes
    (Source.endsType_op "," (by simp) t)
  have hWord (word : String) (hWord : word ∈ Source.keywords) :=
    Source.peekWord_of_isPlainName h.name.plain hWord
      (op ":" ++ (p.2.tokens rt ++ (op "," ++ t)))
  have hTokens : typed p.1 (p.2.tokens rt) ++ (op "," ++ t) =
      .ident p.1 :: (op ":" ++ (p.2.tokens rt ++ (op "," ++ t))) := by
    simp [typed, op]
  rw [hTokens]
  refine (reads_noAttributes rfl).takes.skip.then ?_
  refine (reads_noVisibility (hWord "pub" (by decide))).takes.skip.then ((reads_sees _ _).then ?_)
  rw [hWord "_" (by decide), if_neg Bool.false_ne_true]
  refine (reads_ident h.name.plain _).takes.skip.then ?_
  exact (reads_op ":" _).then hType.skip.takes

theorem takes_structItem {name : String} (hName : IsName name) {body : Tokens}
    (hBody : Takes (commaList (namedField g)) body []) (t : Tokens) :
    Takes (structItem g) (.ident "struct" :: .ident name :: .group .brace body :: t) t := by
  obtain ⟨fields, hBody⟩ := hBody
  refine (reads_word "struct" _).then ((reads_ident hName.plain _).takes.skip.then ?_)
  refine (reads_noGenerics (by simp [Source.peekOp])).takes.skip.then ((reads_rest _).then ?_)
  refine (reads_noWhere rfl).then ((reads_sees _ _).then ?_)
  exact (reads_group .brace hBody t).takes.skip.takes

theorem takes_implItem {s u t body : Tokens} (hBegins : BeginsPath s)
    (hType : Takes (g.type true) s u)
    (hFor : u = .group .brace body :: t ∨ ∃ v, u = .ident "for" :: v ∧
      Takes (g.type true) v (.group .brace body :: t))
    (hInner : NoInnerAttributes body) (hMembers : Takes (toEnd (implMember g)) body []) :
    Takes (implItem g) (.ident "impl" :: s) t := by
  have hBody : Takes (do
      whereClause g
      Source.Parser.braces do
        innerAttributes g
        skip (toEnd (implMember g))) (.group .brace body :: t) t := by
    have hInside : Reads (do
        innerAttributes g
        skip (toEnd (implMember g))) body () [] :=
      (reads_noInnerAttributes hInner).bind hMembers.skip
    exact (reads_noWhere rfl).then (reads_group .brace hInside t).takes
  refine (reads_wordIf_false rfl).takes.skip.then ((reads_wordIf_false rfl).takes.skip.then ?_)
  refine (reads_word "impl" s).then ((reads_sees _ s).then ?_)
  rw [opensGenerics, hBegins.peekOp (by decide), Bool.false_and, if_neg Bool.false_ne_true]
  refine (reads_sees _ s).then ?_
  rw [hBegins.peekOp (by decide), Bool.false_and, if_neg Bool.false_ne_true]
  refine (reads_wordIf_false (hBegins.peekWord (by decide))).takes.skip.then ((reads_sees _ s).then ?_)
  rw [hBegins.peekOp (by decide), Bool.false_and, if_neg Bool.false_ne_true]
  refine (reads_pure false s).then (hType.skip.then ?_)
  rcases hFor with rfl | ⟨v, rfl, hFor⟩
  · exact (reads_wordIf_false rfl).then ((reads_guard rfl _).then hBody)
  · exact (reads_wordIf "for" v).then (hFor.skip.then hBody)

theorem takes_structRest {s t : Tokens} (h : Takes (structItem g) (.ident "struct" :: s) t)
    (v : TraitClient.Visibility) (attributes : List Source.Attribute) :
    Takes (itemRest g attributes) (visibilityTokens v ++ .ident "struct" :: s) t := by
  refine (takes_visibility v rfl).bind fun vis => (reads_rest _).then ?_
  exact h.bind fun _ => takes_pure _ t

theorem takes_implRest {s t : Tokens} (h : Takes (implItem g) (.ident "impl" :: s) t)
    (attributes : List Source.Attribute) :
    Takes (itemRest g attributes) (.ident "impl" :: s) t := by
  refine (reads_noVisibility rfl).then ((reads_rest _).then ?_)
  exact h.bind fun _ => takes_pure _ t

theorem takes_toEnd {α β : Type} {item : Source.Parser β} {tokens : α → Tokens} {as : List α}
    (hNonempty : ∀ a ∈ as, tokens a ≠ []) (h : ∀ a ∈ as, ∀ t, Takes item (tokens a ++ t) t) :
    Takes (toEnd item) (as.flatMap tokens) [] := by
  have hSteps : ∃ bs, Repeats (ifSees (fun s => !Source.peekEnd s) item) (as.flatMap tokens) bs [] := by
    induction as with
    | nil => exact ⟨[], .stops rfl⟩
    | cons a as ih =>
      obtain ⟨hHead, hRest⟩ := List.forall_mem_cons.mp h
      obtain ⟨hFull, hNonempty⟩ := List.forall_mem_cons.mp hNonempty
      obtain ⟨bs, hMore⟩ := ih hNonempty hRest
      obtain ⟨b, hItem⟩ := hHead (as.flatMap tokens)
      rw [List.flatMap_cons]
      refine ⟨b :: bs, .sees (by simp [Source.peekEnd, hFull]) hItem ?_ hMore⟩
      have hLength := List.length_pos_of_ne_nil hFull
      simp only [List.length_append]
      omega
  obtain ⟨bs, hSteps⟩ := hSteps
  exact hSteps.reads.takes

theorem listSize_le_flatMap {α : Type} (tokens : α → Tokens) {as : List α} {a : α} (h : a ∈ as) :
    TokenTree.listSize (tokens a) ≤ TokenTree.listSize (as.flatMap tokens) := by
  induction as with
  | nil => cases h
  | cons b as ih =>
    rw [List.flatMap_cons, TokenTree.listSize_append]
    rcases List.mem_cons.mp h with rfl | hRest
    · exact Nat.le_add_right _ _
    · exact (ih hRest).trans (Nat.le_add_left _ _)

theorem Function.tokens_ne_nil (f : Function) : f.tokens rt ≠ [] := by
  simp [tokens_eq, signatureTokens]

theorem Function.noInnerAttributes (f : Function) (t : Tokens) :
    NoInnerAttributes (f.tokens rt ++ t) := by
  rw [tokens_append]
  exact noInnerAttributes_attributes ((f.beginsSignature rt _).peekHash f.visibility)

theorem noInnerAttributes_functions (functions : List Function) :
    NoInnerAttributes (functions.flatMap (·.tokens rt)) := by
  cases functions with
  | nil => rfl
  | cons f functions => exact f.noInnerAttributes _

theorem takes_functions (hRuntime : rt.IsPlain) {functions : List Function}
    (h : ∀ f ∈ functions, f.Legible) {d : Nat}
    (hSize : 2 * TokenTree.listSize (functions.flatMap (·.tokens rt)) + 5 ≤ d) :
    Takes (toEnd (implMember (Grammar.ofDepth d))) (functions.flatMap (·.tokens rt)) [] := by
  refine takes_toEnd (fun f _ => f.tokens_ne_nil) fun f hf t => ?_
  have hMember := listSize_le_flatMap (·.tokens rt) hf
  exact (h f hf).takes_implMember hRuntime (by omega) t

namespace Item

theorem takes_struct (hRuntime : rt.IsPlain) (comment : String) (v : TraitClient.Visibility)
    {name : String} {fields : List (String × CodeType)} (hName : IsName name)
    (hFields : ∀ f ∈ fields, IsTyped f) {d : Nat}
    (hSize : TokenTree.listSize ((Item.struct comment v name fields).tokens rt) ≤ d) (t : Tokens) :
    Takes (itemStep (Grammar.ofDepth d)) ((Item.struct comment v name fields).tokens rt ++ t) t := by
  simp only [tokens, TokenTree.listSize_append, TokenTree.listSize, TokenTree.size, braces] at hSize
  have hBody : Takes (commaList (namedField (Grammar.ofDepth d)))
      (fields.flatMap fun f => typedTokens rt f ++ op ",") [] := by
    refine takes_commaEnded (fun f _ => by simp [typedTokens]) fun f hf t => ?_
    have hMember := listSize_le_flatMap (fun f => typedTokens rt f ++ op ",") hf
    rw [TokenTree.listSize_append] at hMember
    exact takes_namedField hRuntime (hFields f hf) (by omega) t
  have hStruct := takes_structItem hName hBody t
  have hTokens : (Item.struct comment v name fields).tokens rt ++ t =
      [[.ident "doc"] ++ Tokens.operator "=" ++ [stringToken comment]].flatMap attributeTokens ++
        (visibilityTokens v ++ ident "struct" :: ident name ::
          braces (fields.flatMap fun f => typedTokens rt f ++ op ",") :: t) := by
    simp [tokens, docTokens, op, ident]
  have hHash (s : Tokens) : Source.peekOp "#" (visibilityTokens v ++ s) = false := by
    cases v <;> rfl
  rw [hTokens]
  refine (takes_outerAttributes (List.forall_mem_singleton.mpr (takes_docContent _)) (hHash _)).bind
    fun attributes => ?_
  exact takes_structRest hStruct v attributes

theorem takes_inherent (hRuntime : rt.IsPlain) {type : String} {functions : List Function}
    (hType : IsName type) (hFunctions : ∀ f ∈ functions, f.Legible) {d : Nat}
    (hSize : 2 * TokenTree.listSize ((Item.inherent type functions).tokens rt) + 5 ≤ d) (t : Tokens) :
    Takes (itemStep (Grammar.ofDepth d)) ((Item.inherent type functions).tokens rt ++ t) t := by
  simp only [tokens, TokenTree.listSize, TokenTree.size, braces, ident] at hSize
  obtain ⟨d, rfl⟩ := Nat.exists_eq_add_of_le' (show 1 ≤ d by omega)
  have hName := IsNamePath.singleton hType
  have hTypeRead : Takes ((Grammar.ofDepth (d + 1)).type true)
      (pathStart false [type] ++ braces (functions.flatMap (·.tokens rt)) :: t)
      (braces (functions.flatMap (·.tokens rt)) :: t) :=
    takes_names hName (Source.endsType_group .brace _ t)
  refine (reads_noAttributes rfl).then (takes_implRest (takes_implItem (hName.beginsPath _) hTypeRead
    (.inl rfl) (noInnerAttributes_functions functions) ?_) _)
  exact takes_functions hRuntime hFunctions (by omega)

theorem takes_implementation (hRuntime : rt.IsPlain) {trait type : String} {functions : List Function}
    (hTrait : IsPath trait) (hType : IsName type) (hFunctions : ∀ f ∈ functions, f.Legible) {d : Nat}
    (hSize : 2 * TokenTree.listSize ((Item.implementation trait type functions).tokens rt) + 5 ≤ d)
    (t : Tokens) :
    Takes (itemStep (Grammar.ofDepth d)) ((Item.implementation trait type functions).tokens rt ++ t)
      t := by
  simp only [tokens, TokenTree.listSize_append, TokenTree.listSize, TokenTree.size, braces, ident]
    at hSize
  obtain ⟨d, rfl⟩ := Nat.exists_eq_add_of_le' (show 1 ≤ d by omega)
  have hPath : IsNamePath (isGlobalPath trait) (pathSegments trait) :=
    ⟨splitPath_ne_nil _, hTrait.segments, hTrait.head⟩
  have hName := IsNamePath.singleton hType
  have hTypeRead : Takes ((Grammar.ofDepth (d + 1)).type true)
      (pathStart false [type] ++ braces (functions.flatMap (·.tokens rt)) :: t)
      (braces (functions.flatMap (·.tokens rt)) :: t) :=
    takes_names hName (Source.endsType_group .brace _ t)
  have hTraitRead : Takes ((Grammar.ofDepth (d + 1)).type true)
      (pathTokens trait ++ .ident "for" :: .ident type :: braces (functions.flatMap (·.tokens rt)) :: t)
      (.ident "for" :: .ident type :: braces (functions.flatMap (·.tokens rt)) :: t) :=
    takes_names hPath (Source.endsType_ident "for" _)
  have hTokens : (Item.implementation trait type functions).tokens rt ++ t =
      .ident "impl" :: (pathTokens trait ++ .ident "for" :: .ident type ::
        braces (functions.flatMap (·.tokens rt)) :: t) := by
    simp [tokens, ident]
  rw [hTokens]
  refine (reads_noAttributes rfl).then (takes_implRest (takes_implItem (hPath.beginsPath _) hTraitRead
    (.inr ⟨_, rfl, hTypeRead⟩) (noInnerAttributes_functions functions) ?_) _)
  exact takes_functions hRuntime hFunctions (by omega)

/-- The tokens of a legible item are taken as an item at any depth that is enough for them. -/
theorem Legible.takes (hRuntime : rt.IsPlain) {item : Item} (h : item.Legible) {d : Nat}
    (hSize : 2 * TokenTree.listSize (item.tokens rt) + 5 ≤ d) (t : Tokens) :
    Takes (itemStep (Grammar.ofDepth d)) (item.tokens rt ++ t) t := by
  cases h with
  | struct hName hFields => exact takes_struct hRuntime _ _ hName hFields (by omega) t
  | inherent hType hFunctions => exact takes_inherent hRuntime hType hFunctions hSize t
  | implementation hTrait hType hFunctions =>
    exact takes_implementation hRuntime hTrait hType hFunctions hSize t
  | function h => exact h.takes_item hRuntime hSize t

theorem tokens_ne_nil (item : Item) : item.tokens rt ≠ [] := by
  cases item with
  | function f => exact f.tokens_ne_nil
  | struct | inherent | implementation => simp [tokens]

theorem noInnerAttributes (item : Item) (t : Tokens) : NoInnerAttributes (item.tokens rt ++ t) := by
  cases item with
  | struct | inherent | implementation => rfl
  | function f => exact f.noInnerAttributes t

end Item

/-- The code of legible items is a file. -/
theorem Unit.isFile {u : Unit} (hRuntime : u.runtime.IsPlain) (h : ∀ item ∈ u.items, item.Legible) :
    (Source.parseItems? u.tokens).isSome = true := by
  have hInner : NoInnerAttributes u.tokens := by
    unfold tokens
    cases u.items with
    | nil => rfl
    | cons item items => exact item.noInnerAttributes _
  have hItems : Takes (toEnd (Grammar.ofTokens u.tokens).item) u.tokens [] := by
    refine takes_toEnd (fun item _ => item.tokens_ne_nil) fun item hItem t => ?_
    have hMember := listSize_le_flatMap (·.tokens u.runtime) hItem
    exact (h item hItem).takes hRuntime
      (d := 6 * TokenTree.listSize u.tokens + 11) (by unfold tokens; omega) t
  obtain ⟨items, hItems⟩ := hItems
  obtain ⟨w, hFile⟩ : Reads (file (Grammar.ofTokens u.tokens)) u.tokens items [] :=
    (reads_noInnerAttributes hInner).bind hItems
  simp [Source.parseItems?, run?, hFile]

end Code
end TraitClient
