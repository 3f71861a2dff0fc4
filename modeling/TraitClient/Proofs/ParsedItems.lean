import TraitClient.Proofs.ParsedNames

/-!
# Names in parsed files

The items of a file have names as the parser takes them, at every depth.  A pattern may be the word
`self`, which is no name, but then the tokens are those of a receiver and a receiver is tried first.
-/
namespace TraitClient.Source

def FunctionParameter.wellNamed (p : FunctionParameter) : Bool :=
  p.name?.all isName && p.type?.all (·.wellNamed)

namespace Parser

set_option synthInstance.maxSize 100000

variable {g : Grammar} [YieldsNames g]

theorem yields_ident : Yields ident fun name => isName name = true := by
  intro s hs
  apply (yieldsAt_ident hs).imp
  rintro name ⟨hToken, hPlain, -⟩
  rw [isName, hToken, hPlain]
  rfl

theorem Reads.of_ite {α : Type} {c : Prop} [Decidable c] {p q : Parser α} {s t : Tokens} {a : α}
    (hNot : ¬Reads p s a t) (h : Reads (if c then p else q) s a t) : Reads q s a t := by
  split at h
  · exact absurd h hNot
  · exact h

theorem yieldsAt_of_reads {α : Type} {p : Parser α} {s : Tokens} {P : α → Prop}
    (h : ∀ a t, Reads p s a t → AllNamed t ∧ P a) : YieldsAt p s P := fun _ hr => h _ _ ⟨_, hr⟩

/-! ## Patterns -/

def IsOther (kind : PatternKind) : Prop := ∀ name, kind ≠ .plainName name

theorem yields_rangeRest : Yields (rangeRest g) IsOther := by
  refine Leaves.bind fun _ => Leaves.bind fun bounded => Leaves.bind fun _ => yields_pure ?_
  intro name
  cases bounded <;> exact nofun

theorem yields_other : Yields (pure .other : Parser PatternKind) IsOther := yields_pure nofun

theorem yields_pathPattern : Yields (pathPattern g) IsOther := by
  refine Leaves.bind fun _ => Leaves.bind fun _ => .ite (fun _ => ?_) fun _ => .ite (fun _ => ?_)
    fun _ => .ite (fun _ => ?_) fun _ => .ite (fun _ => yields_rangeRest) fun _ => yields_other
  · exact Leaves.bind fun _ => Leaves.bind fun _ => yields_other
  · exact Leaves.bind fun _ => yields_other
  · exact Leaves.bind fun _ => yields_other

theorem yields_looseRange : Yields (do
    let closed ← rangeOperator
    let bounded ← rangeBound g
    guard (bounded || !closed)
    pure (if bounded then .openRange else .rest)) IsOther := by
  refine Leaves.bind fun _ => Leaves.bind fun bounded => Leaves.bind fun _ => yields_pure ?_
  intro name
  cases bounded <;> exact nofun

theorem reads_identPattern {s t : Tokens} {name : String} (hs : AllNamed s)
    (h : Reads (patternStep g) s (.plainName name) t) :
    Reads (identPattern g) s (.plainName name) t := by
  have hNot {p : Parser PatternKind} (hp : Yields p IsOther) : ¬Reads p s (.plainName name) t :=
    fun hRead => ((hp s hs).of_reads hRead).2 name rfl
  have hThen {p : Parser Unit} (hp : Leaves p) : Yields (p >>= fun _ => pure .other) IsOther :=
    Leaves.bind fun _ => yields_other
  replace h := Reads.of_looks_bind (p := rest) rfl h
  replace h := h.of_ite (hNot yields_pathPattern)
  replace h := h.of_ite (hNot (hThen inferInstance))
  replace h := h.of_ite (hNot (Leaves.bind fun _ => hThen inferInstance))
  replace h := h.of_ite (hNot (Leaves.bind fun _ => Leaves.bind fun _ => Leaves.bind fun _ =>
    .ite (fun _ => yields_rangeRest) fun _ => yields_other))
  split at h
  · exact h
  replace h := h.of_ite (hNot (Leaves.bind fun _ => Leaves.bind fun _ => hThen inferInstance))
  replace h := h.of_ite (hNot (hThen inferInstance))
  replace h := h.of_ite (hNot (hThen inferInstance))
  replace h := h.of_ite (hNot yields_looseRange)
  obtain ⟨_, hFail⟩ := h
  cases hFail

theorem peekWord_eq_true {name : String} {s : Tokens} (h : peekWord name s = true) :
    ∃ t, s = .ident name :: t := by
  unfold peekWord at h
  split at h
  · exact ⟨_, by rw [eq_of_beq h]⟩
  · cases h

theorem Reads.wordIf_cases {name : String} {s t : Tokens} {b : Bool}
    (h : Reads (wordIf name) s b t) :
    (b = true ∧ s = .ident name :: t) ∨ (b = false ∧ s = t) := by
  have hRest := Reads.of_looks_bind (p := sees (peekWord name)) rfl h
  split at hRest
  · rename_i hPeek
    obtain ⟨u, rfl⟩ := peekWord_eq_true hPeek
    obtain ⟨_, v, ⟨_, hWord⟩, ⟨_, hPure⟩⟩ := hRest.of_bind
    simp only [word, beq_self_eq_true, if_true, Option.some.injEq, Parsed.mk.injEq] at hWord
    cases hPure
    exact .inl ⟨rfl, by rw [hWord.2.2]⟩
  · obtain ⟨_, hPure⟩ := hRest
    cases hPure
    exact .inr ⟨rfl, rfl⟩

omit [YieldsNames g] in
/-- What stands after the identifier of a pattern leaves it a name or makes it something else. -/
theorem of_subpattern {isRef : Bool} {found name : String} {s t : Tokens}
    (h : Reads (do
      if ← sees (peekOp "@") then
        op "@"
        skip g.pattern
        pure PatternKind.other
      else pure (if isRef then PatternKind.other else PatternKind.plainName found)) s
        (.plainName name) t) : isRef = false ∧ found = name ∧ s = t := by
  replace h := Reads.of_looks_bind (p := sees (peekOp "@")) rfl h
  split at h
  · obtain ⟨_, _, _, h⟩ := h.of_bind
    obtain ⟨_, _, _, _, h⟩ := h.of_bind
    cases h
  · obtain ⟨_, hPure⟩ := h
    cases isRef with
    | true => cases hPure
    | false =>
      cases hPure
      exact ⟨rfl, rfl, rfl⟩

omit [YieldsNames g] in
theorem identPattern_plainName {s t : Tokens} {name : String} (hs : AllNamed s)
    (h : Reads (identPattern g) s (.plainName name) t) :
    isName name = true ∨ name = "self" ∧ ReadsSelf s t := by
  obtain ⟨isRef, s₁, hRef, h⟩ := h.of_bind
  obtain ⟨_, s₂, hMut, h⟩ := h.of_bind
  replace h := Reads.of_looks_bind (p := sees (peekWord "self")) rfl h
  dsimp only at h
  split at h
  · rename_i hSelf
    obtain ⟨u, rfl⟩ := peekWord_eq_true hSelf
    obtain ⟨found, s₃, hFound, h⟩ := h.of_bind
    obtain ⟨rfl, rfl, rfl⟩ := of_subpattern h
    obtain ⟨_, hFound⟩ := hFound
    cases hFound
    obtain ⟨hFalse, -⟩ | ⟨-, rfl⟩ := hRef.wordIf_cases
    · cases hFalse
    obtain ⟨_, _, hMut, ⟨_, hPure⟩⟩ := hMut.of_bind
    cases hPure
    obtain ⟨-, rfl⟩ | ⟨-, rfl⟩ := hMut.wordIf_cases
    · exact .inr ⟨rfl, .inr rfl⟩
    · exact .inr ⟨rfl, .inl rfl⟩
  · obtain ⟨found, s₃, hFound, h⟩ := h.of_bind
    obtain ⟨rfl, rfl, rfl⟩ := of_subpattern h
    have hs₁ : AllNamed s₁ := Leaves.named hs hRef
    have hs₂ : AllNamed s₂ := Leaves.named hs₁ hMut
    exact .inl ((yields_ident s₂ hs₂).of_reads hFound).2

/-! ## Parameters -/

theorem Reads.opIf_false {text : String} {s t : Tokens} (h : Reads (opIf text) s false t) :
    s = t := by
  replace h := Reads.of_looks_bind (p := sees (peekOp text)) rfl h
  split at h
  · obtain ⟨_, _, _, ⟨_, hPure⟩⟩ := h.of_bind
    cases hPure
  · obtain ⟨_, hPure⟩ := h
    cases hPure
    rfl

theorem Reads.colon {s t : Tokens} (h : Reads (op ":") s () t) : Reads (opIf ":") s true t := by
  obtain ⟨w, hColon⟩ := h
  obtain ⟨u, hTake, hEq⟩ := Option.map_eq_some_iff.mp hColon
  have hPeek : peekOp ":" s = true := by
    rcases s with _ | ⟨_ | ⟨c, joint⟩ | _ | _, s⟩
    · cases hTake
    · cases hTake
    · change (if ':' == c then some s else none) = some u at hTake
      split at hTake
      · rename_i hSame
        exact hSame
      · cases hTake
    · cases hTake
    · cases hTake
  refine (reads_sees _ _).bind ?_
  rw [hPeek]
  exact Reads.bind ⟨w, hColon⟩ (reads_pure true t)

omit [YieldsNames g] in
theorem takes_selfReceiver {s t u v : Tokens} {type : TypeExpr} (hSelf : ReadsSelf s t)
    (hColon : Reads (op ":") t () u) (hType : Reads (g.type true) u type v) :
    Takes (receiver g) s v := by
  have hAfter {s : Tokens} (isMut : Bool)
      (hMut : Reads (wordIf "mut") s isMut (.ident "self" :: t)) :
      Takes (do
        let isMut ← wordIf "mut"
        word "self"
        if ← opIf ":" then skip (g.type true)
        pure (FunctionParameter.receiver false isMut)) s v :=
    hMut.then ((reads_word "self" t).then (hColon.colon.then (hType.takes.skip.then (takes_pure _ v))))
  rcases hSelf with rfl | rfl
  · exact (reads_opIf_false rfl).then (hAfter false (reads_wordIf_false rfl))
  · exact (reads_opIf_false rfl).then (hAfter true (reads_wordIf "mut" _))

theorem yieldsAt_typedParameter {attributes : List Attribute} {s : Tokens} (hs : AllNamed s)
    (hNone : ∀ t, ¬Takes (receiver g) s t) :
    YieldsAt (typedParameter g attributes) s fun o => ∀ p ∈ o, p.wellNamed = true := by
  refine yieldsAt_rest_bind (.ite (fun _ => ?_) fun _ => ?_)
  · refine Yields.bind (yields_type true) ?_ s hs
    intro type hType
    refine yields_pure ?_
    simpa [FunctionParameter.wellNamed, FunctionParameter.name?, FunctionParameter.type?] using hType
  · refine yieldsAt_of_reads ?_
    intro o t' h
    obtain ⟨kind, t, hKind, hAfter⟩ := h.of_bind
    obtain ⟨_, u, hColon, hAfter⟩ := hAfter.of_bind
    have hu : AllNamed u := Leaves.named (Leaves.named hs hKind) hColon
    obtain ⟨dots, v, hDots, hAfter⟩ := hAfter.of_bind
    have hv : AllNamed v := Leaves.named hu hDots
    split at hAfter
    · obtain ⟨_, hPure⟩ := hAfter
      cases hPure
      exact ⟨hv, nofun⟩
    · rename_i hFalse
      obtain rfl := Bool.eq_false_iff.mpr hFalse
      obtain rfl := hDots.opIf_false
      obtain ⟨type, w, hType, ⟨_, hPure⟩⟩ := hAfter.of_bind
      obtain ⟨hw, hNamed⟩ := (yields_type true u hu).of_reads hType
      cases hPure
      refine ⟨hw, ?_⟩
      rintro p ⟨⟩
      rw [FunctionParameter.wellNamed, Bool.and_eq_true]
      refine ⟨?_, hNamed⟩
      cases kind with
      | plainName name =>
        rcases YieldsNames.plainName hs hKind with hName | ⟨-, hSelf⟩
        · exact hName
        · exact absurd (takes_selfReceiver hSelf hColon hType) (hNone _)
      | rest => rfl
      | openRange => rfl
      | other => rfl

/-- A receiver is tried first, so that a name is none of its words. -/
theorem yields_parameter {attributes : List Attribute} :
    Yields (or (some <$> receiver g) (typedParameter g attributes))
      fun o => ∀ p ∈ o, p.wellNamed = true := by
  have hReceiver : Yields (receiver g) fun p => p.wellNamed = true := by
    have hTyped (isReference isMut : Bool) : Yields (do
        word "self"
        if !isReference then
          if ← opIf ":" then skip (g.type true)
        pure (FunctionParameter.receiver isReference isMut)) fun p => p.wellNamed = true := by
      refine Leaves.bind fun _ => .ite (fun _ => Leaves.bind fun _ => .ite (fun _ => ?_) fun _ => ?_)
        fun _ => yields_pure rfl
      · exact Leaves.bind fun _ => yields_pure rfl
      · exact yields_pure rfl
    refine Leaves.bind fun isReference => .ite (fun _ => Leaves.bind fun _ => ?_) fun _ => ?_
    · exact Leaves.bind fun isMut => hTyped isReference isMut
    · exact Leaves.bind fun isMut => hTyped isReference isMut
  intro s hs r hr
  unfold Parser.or at hr
  cases hFirst : (some <$> receiver g) s with
  | some first =>
    rw [hFirst] at hr
    cases hr
    exact (hReceiver.map (f := some) (R := fun o => ∀ p ∈ o, p.wellNamed = true)
      (by simp)) s hs _ hFirst
  | none =>
    rw [hFirst] at hr
    refine yieldsAt_typedParameter hs ?_ r hr
    rintro t ⟨p, hp⟩
    obtain ⟨_, hSome⟩ := hp.map some
    rw [hFirst] at hSome
    cases hSome

theorem yields_parameters : Yields (parameters g) fun ps => ∀ p ∈ ps, p.wellNamed = true := by
  have hFuel (fuel : Nat) (isFirst : Bool) :
      Yields (parameters.go g isFirst fuel) fun ps => ∀ p ∈ ps, p.wellNamed = true := by
    induction fuel generalizing isFirst with
    | zero => exact yields_fail
    | succ fuel ih =>
      unfold parameters.go
      refine Leaves.bind fun _ => .ite (fun _ => yields_pure (by simp)) fun _ => ?_
      refine Leaves.bind fun attributes => Leaves.bind fun _ => .ite (fun _ => ?_) fun _ => ?_
      · exact Leaves.bind fun _ => yields_pure (by simp)
      · refine yields_parameter.bind fun found hFound => ?_
        cases found with
        | none => exact Leaves.bind fun _ => yields_pure (by simp)
        | some p =>
          refine Leaves.bind fun _ => Leaves.bind fun _ => .ite (fun _ => ?_) fun _ => ?_
          · exact yields_pure (by simpa using hFound)
          · refine Leaves.bind fun _ => (ih false).bind fun more hMore => yields_pure ?_
            exact List.forall_mem_cons.mpr ⟨hFound p rfl, hMore⟩
  exact fun s hs => hFuel (s.length + 1) true s hs

/-! ## Functions -/

theorem yields_returnType (allowPlus : Bool) :
    Yields (returnType g allowPlus) fun o => ∀ t ∈ o, t.wellNamed = true :=
  (Leaves.bind fun _ => yields_type allowPlus).ifSees _

structure Signature.WellNamed (sig : Signature) : Prop where
  name : isName sig.name = true
  parameters : ∀ p ∈ sig.parameters, p.wellNamed = true
  output : ∀ t ∈ sig.output, t.wellNamed = true

theorem yields_signature (allowSafe : Bool) : Yields (signature g allowSafe) Signature.WellNamed := by
  have hName (isAsync : Bool) : Yields (do
      word "fn"
      let name ← ident
      let hasGenerics ← generics g
      let parameters ← parens (parameters g)
      let output ← returnType g true
      whereClause g
      pure ({ name, isAsync, hasGenerics, parameters, output } : Signature)) Signature.WellNamed := by
    refine Leaves.bind fun _ => yields_ident.bind fun name hName => Leaves.bind fun hasGenerics => ?_
    refine (yields_parameters.group _).bind fun parameters hParameters => ?_
    refine (yields_returnType true).bind fun output hOutput => ?_
    exact Leaves.bind fun _ => yields_pure ⟨hName, hParameters, hOutput⟩
  refine Leaves.bind fun _ => Leaves.bind fun isAsync => Leaves.bind fun _ => ?_
  refine .ite (fun _ => Leaves.bind fun _ => ?_) fun _ => ?_
  all_goals refine Leaves.bind fun _ => .ite (fun _ => Leaves.bind fun _ => ?_) fun _ => ?_
  all_goals exact hName isAsync

instance (allowSafe : Bool) : Leaves (signature g allowSafe) := (yields_signature allowSafe).leaves

theorem Signature.WellNamed.function {sig : Signature} (h : sig.WellNamed)
    (attributes : List Attribute) (hasBody : Bool) : TraitFunction.wellNamed
      { attributes, name := sig.name, isAsync := sig.isAsync, hasGenerics := sig.hasGenerics,
        parameters := sig.parameters, output := sig.output, hasBody } = true := by
  simp only [TraitFunction.wellNamed, TraitFunction.types, Bool.and_eq_true, List.all_eq_true,
    List.mem_append, List.mem_filterMap, Option.mem_toList]
  refine ⟨⟨h.name, ?_⟩, ?_⟩
  · rintro name ⟨p, hp, hName⟩
    have hParameter := (Bool.and_eq_true_iff.mp (h.parameters p hp)).1
    rw [hName] at hParameter
    exact hParameter
  · rintro type (⟨p, hp, hType⟩ | hType)
    · have hParameter := (Bool.and_eq_true_iff.mp (h.parameters p hp)).2
      rw [hType] at hParameter
      exact hParameter
    · exact h.output type hType

theorem yields_traitMember : Yields (traitMember g) fun o => ∀ f ∈ o, f.wellNamed = true := by
  refine Leaves.bind fun attributes => Leaves.bind fun vis => Leaves.bind fun isDefault => ?_
  refine Leaves.bind fun s => .ite (fun _ => ?_) fun _ => .ite (fun _ => ?_) fun _ =>
    .ite (fun _ => ?_) fun _ => ?_
  · refine (yields_signature false).bind fun sig hSig => Leaves.bind fun hasBody => yields_pure ?_
    intro f hf
    split at hf
    · cases hf
      exact hSig.function attributes hasBody
    · cases hf
  · exact Leaves.bind fun _ => yields_pure nofun
  · exact Leaves.bind fun _ => yields_pure nofun
  · exact Leaves.bind fun _ => Leaves.bind fun _ => yields_pure nofun

/-! ## Traits -/

theorem Yields.toEnd {α : Type} {item : Parser α} {P : α → Prop} (h : Yields item P) :
    Yields (toEnd item) fun as => ∀ a ∈ as, P a := h.whileSees _

theorem yields_traitBody {name : String} (hName : isName name = true) (attributes : List Attribute)
    (vis : Visibility) (hasGenerics : Bool) :
    Yields (traitBody g attributes vis name hasGenerics) fun item => item.wellNamed = true := by
  have hMembers : Yields (braces do
      innerAttributes g
      toEnd (traitMember g)) fun members => ∀ o ∈ members, ∀ f ∈ o, f.wellNamed = true :=
    Yields.group (Leaves.bind fun _ => yields_traitMember.toEnd) _
  refine Leaves.bind fun hasBounds => .ite (fun _ => ?_) fun _ => ?_
  all_goals
    refine Leaves.bind fun found => Leaves.bind fun _ => hMembers.bind fun members hMembers => ?_
    refine yields_pure ?_
    simp only [Item.wellNamed, TraitDeclaration.wellNamed, Bool.and_eq_true, List.all_eq_true,
      List.mem_filterMap]
    refine ⟨hName, ?_⟩
    rintro f ⟨o, ho, hf⟩
    exact hMembers o ho f hf

theorem yields_traitItem (attributes : List Attribute) (vis : Visibility) :
    Yields (traitItem g attributes vis) fun item => item.wellNamed = true := by
  refine Leaves.bind fun isMarked => Leaves.bind fun _ => Leaves.bind fun _ => Leaves.bind fun _ => ?_
  refine yields_ident.bind fun name hName => Leaves.bind fun hasGenerics => Leaves.bind fun _ => ?_
  refine .ite (fun _ => ?_) fun _ => yields_traitBody hName attributes vis hasGenerics
  exact Leaves.bind fun _ => Leaves.bind fun _ => Leaves.bind fun _ => Leaves.bind fun _ =>
    yields_pure rfl

/-! ## Imports -/

theorem isSegment_of_peek {name : String} {t : Tokens}
    (hToken : (Code.Word.ident name).isToken = true)
    (hPeek : (peekIdent (.ident name :: t) || peekPathWord (.ident name :: t) ||
      peekWord "try" (.ident name :: t)) = true) : isSegment name = true := by
  simp only [peekIdent, peekPathWord, peekWord, Bool.or_eq_true, beq_iff_eq] at hPeek
  refine isSegment_iff.mpr ⟨hToken, ?_⟩
  rcases hPeek with (hPlain | ((rfl | rfl) | rfl) | rfl) | rfl
  · exact .inl hPlain
  all_goals exact .inr (by decide)

theorem yields_useTree (allowRoot : Bool) (depth : Nat) :
    Yields (useTree allowRoot depth) fun o => ∀ tree ∈ o, tree.wellNamed = true := by
  induction depth generalizing allowRoot with
  | zero => exact yields_fail
  | succ depth ih =>
    have hTrees : Yields (braces <| commaList do
        let fromRoot ← if allowRoot then opIf "::" else pure false
        let tree ← useTree (allowRoot && !fromRoot) depth
        pure (if fromRoot then none else tree))
        fun trees => ∀ o ∈ trees, ∀ tree ∈ o, tree.wellNamed = true := by
      refine Yields.group (Yields.separated ?_ comma peekEnd) _
      have hTree (fromRoot : Bool) : Yields (do
          let tree ← useTree (allowRoot && !fromRoot) depth
          pure (if fromRoot then none else tree)) fun o => ∀ tree ∈ o, tree.wellNamed = true := by
        refine (ih _).bind fun tree hTree => yields_pure ?_
        split
        · exact nofun
        · exact hTree
      exact .ite (fun _ => Leaves.bind hTree) fun _ => Leaves.bind hTree
    unfold useTree
    refine yields_rest_bind fun s hs => .ite (fun hWord => ?_) fun _ =>
      .ite (fun _ => ?_) fun _ => ?_
    · refine (yieldsAt_anyIdent hs).bind ?_
      rintro name ⟨hToken, t, rfl⟩
      have hName : isSegment name = true := isSegment_of_peek hToken hWord
      have hRename (localName : String) : Yields (pure (some (UseTree.rename name localName)))
          fun o => ∀ tree ∈ o, tree.wellNamed = true :=
        yields_pure (by simpa [UseTree.wellNamed] using hName)
      refine Leaves.bind fun _ => .ite (fun _ => ?_) fun _ =>
        Leaves.bind fun _ => .ite (fun _ => ?_) fun _ => ?_
      · refine Leaves.bind fun _ => (ih false).bind fun tree hTree => yields_pure ?_
        intro tree' hTree'
        obtain ⟨inner, hInner, rfl⟩ := Option.map_eq_some_iff.mp hTree'
        rw [UseTree.wellNamed, hName, hTree inner hInner]
        rfl
      · exact Leaves.bind fun _ => .ite (fun _ => Leaves.bind hRename) fun _ => Leaves.bind hRename
      · exact yields_pure (by simpa [UseTree.wellNamed] using hName)
    · exact (Leaves.bind fun _ => yields_pure (by simp [UseTree.wellNamed])) s hs
    · refine (hTrees.bind fun trees hTrees => yields_pure ?_) s hs
      intro tree hTree
      split at hTree
      · cases hTree
        rw [UseTree.wellNamed, UseTree.allWellNamed_iff]
        intro tree hMem
        obtain ⟨o, ho, hSome⟩ := List.mem_filterMap.mp hMem
        exact hTrees o ho tree hSome
      · cases hTree

theorem yields_useItem : Yields useItem fun item => item.wellNamed = true := by
  refine Leaves.bind fun _ => Leaves.bind fun leadingColon => Leaves.bind fun s => ?_
  refine (yields_useTree _ _).bind fun o ho => Leaves.bind fun _ => yields_pure ?_
  cases o with
  | none => rfl
  | some tree => exact ho tree rfl

/-! ## Modules -/

theorem yields_moduleItem : Yields (moduleItem g) fun item => item.wellNamed = true := by
  have hModule (name : String) (hName : isSegment name = true) : Yields (do
      if ← sees (peekOp ";") then
        op ";"
        pure (Item.module name none)
      else
        let items ← braces do
          innerAttributes g
          toEnd g.item
        pure (Item.module name (some items))) fun item : Item => item.wellNamed = true := by
    have hItems : Yields (braces do
        innerAttributes g
        toEnd g.item) fun items => ∀ item ∈ items, item.wellNamed = true :=
      Yields.group (Leaves.bind fun _ => YieldsNames.item.toEnd) _
    refine Leaves.bind fun _ => .ite (fun _ => ?_) fun _ => ?_
    · exact Leaves.bind fun _ => yields_pure (by simpa [Item.wellNamed] using hName)
    · refine hItems.bind fun items hItems => yields_pure ?_
      rw [Item.wellNamed, hName, Bool.true_and]
      exact (Item.allWellNamed_iff items).mpr hItems
  refine Leaves.bind fun _ => Leaves.bind fun _ => ?_
  refine yields_sees_bind fun s hs => .ite (fun hTry => ?_) fun _ => ?_
  · refine (yieldsAt_anyIdent hs).bind ?_
    rintro name ⟨hToken, t, rfl⟩
    exact hModule name (isSegment_of_peek hToken (by rw [hTry, Bool.or_true]))
  · refine (yieldsAt_ident hs).bind ?_
    rintro name ⟨hToken, hPlain, -⟩
    exact hModule name (isSegment_iff.mpr ⟨hToken, .inl hPlain⟩)

/-! ## Items -/

instance : Leaves (implMember g) := by unfold implMember; infer_instance

instance : Leaves (implItem g) := by
  have hTarget (isNegative : Bool) : Leaves (do
      skip (g.type true)
      if ← wordIf "for" then skip (g.type true)
      else guard !isNegative
      whereClause g
      braces do
        innerAttributes g
        skip (toEnd (implMember g))) := inferInstance
  unfold implItem
  infer_instance

instance : Leaves (foreignMember g) := by unfold foreignMember; infer_instance

instance : Leaves (foreignItem g) := by unfold foreignItem; infer_instance

theorem yields_itemRest (attributes : List Attribute) :
    Yields (itemRest g attributes) fun item => item.wellNamed = true := by
  have hOther (p : Parser Unit) [Leaves p] : Yields (do
      p
      pure Item.other) fun item => item.wellNamed = true := Leaves.bind fun _ => yields_pure rfl
  refine Leaves.bind fun vis => Leaves.bind fun s => ?_
  refine .ite (fun _ => hOther _) fun _ => .ite (fun _ => ?foreign) fun _ =>
    .ite (fun _ => yields_useItem) fun _ => .ite (fun _ => hOther _) fun _ =>
    .ite (fun _ => hOther _) fun _ => .ite (fun _ => ?marked) fun _ =>
    .ite (fun _ => yields_moduleItem) fun _ => .ite (fun _ => hOther _) fun _ =>
    .ite (fun _ => hOther _) fun _ => .ite (fun _ => hOther _) fun _ =>
    .ite (fun _ => hOther _) fun _ => .ite (fun _ => yields_traitItem attributes vis) fun _ => .ite (fun _ => hOther _) fun _ =>
    .ite (fun _ => hOther _) fun _ => Leaves.bind fun _ => hOther _
  case foreign => exact .ite (fun _ => hOther _) fun _ => Leaves.bind fun _ => hOther _
  case marked =>
    refine .ite (fun _ => yields_traitItem attributes vis) fun _ => .ite (fun _ => hOther _) fun _ =>
      .ite (fun _ => Leaves.bind fun _ => hOther _) fun _ => yields_moduleItem

theorem yields_itemStep : Yields (itemStep g) fun item => item.wellNamed = true :=
  Leaves.bind fun attributes => yields_itemRest attributes

/-! ## Statements -/

instance (attributes : List Attribute) : Leaves (itemRest g attributes) :=
  (yields_itemRest attributes).leaves

instance : Leaves (letStatement g) := by unfold letStatement; infer_instance

instance : Leaves (statement g) := by unfold statement; infer_instance

instance : Leaves (statementsStep g) := by unfold statementsStep; infer_instance

/-! ## Files -/

instance : YieldsNames g.step where
  type := yields_typeStep
  expr _ := inferInstanceAs (Leaves (exprStep g _))
  operand _ := inferInstanceAs (Leaves (operandStep g _))
  operators _ _ _ := inferInstanceAs (Leaves (operatorsStep g _ _ _))
  statementExpr := inferInstanceAs (Leaves (statementExprStep g))
  pattern := inferInstanceAs (Leaves (patternStep g))
  plainName hs h := identPattern_plainName hs (reads_identPattern hs h)
  statements := inferInstanceAs (Leaves (statementsStep g))
  item := yields_itemStep

omit [YieldsNames g] in
instance : YieldsNames Grammar.empty where
  type _ := yields_fail
  expr _ := inferInstanceAs (Leaves fail)
  operand _ := inferInstanceAs (Leaves fail)
  operators _ _ _ := inferInstanceAs (Leaves fail)
  statementExpr := inferInstanceAs (Leaves fail)
  pattern := inferInstanceAs (Leaves fail)
  plainName _ h := by
    obtain ⟨_, hFail⟩ := h
    cases hFail
  statements := inferInstanceAs (Leaves fail)
  item := yields_fail

instance (depth : Nat) : YieldsNames (Grammar.ofDepth depth) := by
  induction depth with
  | zero => exact inferInstanceAs (YieldsNames Grammar.empty)
  | succ depth ih => exact inferInstanceAs (YieldsNames (Grammar.ofDepth depth).step)

theorem yields_file : Yields (Parser.file g) fun items => Item.allWellNamed items = true := by
  refine Leaves.bind fun _ => ?_
  exact YieldsNames.item.toEnd.imp fun items h => (Item.allWellNamed_iff items).mpr h

end Parser

theorem parseItems?_wellNamed {s : Tokens} (hs : AllNamed s) {items : List Item}
    (h : parseItems? s = some items) : Item.allWellNamed items = true := by
  rw [parseItems?, Grammar.ofTokens] at h
  exact Parser.yields_file.run? hs h

theorem parseFile?_wellNamed {text : String} {items : List Item} (h : parseFile? text = some items) :
    Item.allWellNamed items = true := by
  obtain ⟨s, hTokens, hItems⟩ := Option.bind_eq_some_iff.mp h
  exact parseItems?_wellNamed (Lexer.lexFile?_named hTokens) hItems

theorem parseType?_wellNamed {text : String} {t : TypeExpr} (h : parseType? text = some t) :
    t.wellNamed = true := by
  obtain ⟨s, hTokens, hType⟩ := Option.bind_eq_some_iff.mp h
  rw [parseTypeTokens?, Grammar.ofTokens] at hType
  exact (Parser.yields_type true).run? (Lexer.lex?_named hTokens) hType

end TraitClient.Source
