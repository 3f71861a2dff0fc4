import TraitClient.Proofs.ParserNames

/-!
# Names in parsed syntax
-/
namespace TraitClient.Source

open Code (takesArguments)

def TypeArgument.wellNamed (a : TypeArgument) : Bool := a.parts.all (·.wellNamed)

def TypeSegment.wellNamed (s : TypeSegment) : Bool :=
  isSegment s.name && (!hasArguments s || takesArguments s.name) && s.parts.all (·.wellNamed)

theorem TypeArgument.allParts_wellNamed {arguments : List TypeArgument}
    (h : ∀ a ∈ arguments, a.wellNamed = true) :
    (TypeArgument.allParts arguments).all (·.wellNamed) = true := by
  induction arguments with
  | nil => rfl
  | cons a arguments ih =>
    obtain ⟨hHead, hRest⟩ := List.forall_mem_cons.mp h
    rw [allParts, List.all_append, Bool.and_eq_true]
    exact ⟨hHead, ih hRest⟩

theorem TypeSegment.allParts_wellNamed {segments : List TypeSegment}
    (h : ∀ s ∈ segments, s.wellNamed = true) :
    (TypeSegment.allParts segments).all (·.wellNamed) = true := by
  induction segments with
  | nil => rfl
  | cons s segments ih =>
    obtain ⟨hHead, hRest⟩ := List.forall_mem_cons.mp h
    rw [allParts, List.all_append, Bool.and_eq_true]
    exact ⟨(Bool.and_eq_true_iff.mp hHead).2, ih hRest⟩

theorem TypeSegment.bare_wellNamed {name : String} (h : isSegment name = true) :
    (TypeSegment.mk name .none).wellNamed = true := by
  rw [wellNamed, TypeSegment.name, h]
  rfl

theorem TypeSegment.angle_wellNamed {name : String} (h : isSegment name = true)
    (hTakes : takesArguments name = true) {arguments : List TypeArgument}
    (hArguments : ∀ a ∈ arguments, a.wellNamed = true) :
    (TypeSegment.mk name (.angle arguments)).wellNamed = true := by
  rw [wellNamed, TypeSegment.name, h, hTakes, Bool.or_true, parts]
  exact TypeArgument.allParts_wellNamed hArguments

theorem TypeExpr.path_wellNamed {tokens : Tokens} {leadingColon : Bool} {segments : List TypeSegment}
    (hHead : leadingColon = true ∨ segments.head?.map (·.name) ≠ some "try")
    (h : ∀ s ∈ segments, s.wellNamed = true) :
    (TypeExpr.path tokens leadingColon segments).wellNamed = true := by
  rw [wellNamed, parts, List.all_cons, TypeSegment.allParts_wellNamed h, Bool.and_true,
    TypePart.wellNamed, Bool.and_eq_true, List.all_eq_true]
  refine ⟨?_, fun s hs => (Bool.and_eq_true_iff.mp (h s hs)).1⟩
  rcases hHead with rfl | hHead
  · rfl
  · exact Bool.or_eq_true_iff.mpr (.inr (bne_iff_ne.mpr hHead))

namespace Parser

variable {g : Grammar} [YieldsNames g] {bound : Parser Unit} [Leaves bound]

/-! ## Types -/

theorem yields_type (allowPlus : Bool) : Yields (g.type allowPlus) fun t => t.wellNamed = true :=
  YieldsNames.type allowPlus

theorem yields_genericArgument :
    Yields (genericArgument g bound) fun a => a.2.wellNamed = true := by
  refine Leaves.bind fun s => .ite (fun _ => ?_) fun _ => .ite (fun _ => ?_) fun _ => ?_
  · exact Leaves.bind fun _ => yields_pure rfl
  · exact Leaves.bind fun _ => yields_pure rfl
  · refine (yields_type true).bind fun t ht => .ite (fun _ => ?_) fun _ => yields_pure ht
    refine Leaves.bind fun _ => .ite (fun _ => ?_) fun _ =>
      Leaves.bind fun _ => .ite (fun _ => ?_) fun _ => yields_pure ht
    · exact Leaves.bind fun _ => Leaves.bind fun _ => .ite
        (fun _ => Leaves.bind fun _ => yields_pure rfl) fun _ => Leaves.bind fun _ => yields_pure rfl
    · exact Leaves.bind fun _ => Leaves.bind fun _ => yields_pure rfl

theorem yields_angleArguments :
    Yields (angleArguments g bound) fun as => ∀ a ∈ as, a.wellNamed = true := by
  refine Yields.respelled (Leaves.bind fun opening => ?_)
  refine Yields.bind (P := fun as : List AngleArgument => ∀ a ∈ as, a.value.wellNamed = true)
    (Yields.many ?_) fun as has => Leaves.bind fun _ => yields_pure (by simpa using has)
  refine Leaves.bind fun ends => .ite (fun _ => yields_pure (by simp)) fun _ => ?_
  refine yields_genericArgument.written.bind fun ⟨⟨isLifetime, value⟩, tokens⟩ hValue => ?_
  have hOne (hasComma : Bool) : Yields (pure (some (⟨isLifetime, value, tokens, hasComma⟩ : AngleArgument)))
      fun o => ∀ a ∈ o, a.value.wellNamed = true :=
    yields_pure (by simpa using hValue)
  exact Leaves.bind fun _ => .ite (fun _ => hOne false) fun _ => Leaves.bind fun _ => hOne true

theorem yieldsAt_pathSegment {inExpr : Bool} {s : Tokens} (hs : AllNamed s) :
    YieldsAt (pathSegment g bound inExpr) s fun segment =>
      segment.wellNamed = true ∧ ∃ t, s = .ident segment.name :: t := by
  refine yieldsAt_rest_bind (.ite (fun hWord => ?_) fun _ => ?_)
  · refine (yieldsAt_anyIdent hs).bind ?_
    rintro name ⟨hToken, t, rfl⟩
    refine yields_pure ⟨?_, t, rfl⟩
    have hName : name ∈ Code.pathWords := by
      simp only [peekWord, Bool.or_eq_true, beq_iff_eq] at hWord
      rcases hWord with ((rfl | rfl) | rfl) | rfl <;> decide
    exact TypeSegment.bare_wellNamed (isSegment_iff.mpr ⟨hToken, .inr hName⟩)
  · have hRest (name : String) (hName : isSegment name = true) (hTakes : takesArguments name = true) :
        Yields (do
          let s ← rest
          if (!inExpr && peekOp "<" s && !peekOp "<=" s) || (peekOp "::" s && peek3 (peekOp "<") s) then
            let arguments ← angleArguments g bound
            pure (TypeSegment.mk name (.angle arguments))
          else pure (TypeSegment.mk name .none))
          fun segment => segment.wellNamed = true ∧ segment.name = name := by
      refine Leaves.bind fun _ => .ite (fun _ => ?_) fun _ => ?_
      · exact yields_angleArguments.bind fun _ hArguments =>
          yields_pure ⟨TypeSegment.angle_wellNamed hName hTakes hArguments, rfl⟩
      · exact yields_pure ⟨TypeSegment.bare_wellNamed hName, rfl⟩
    refine .ite (fun hSelf => ?_) fun _ => ?_
    · refine (yieldsAt_anyIdent hs).bind ?_
      rintro name ⟨hToken, t, rfl⟩
      obtain rfl := eq_of_beq hSelf
      apply (hRest _ (by decide) (by decide)).imp
      rintro segment ⟨hSegment, hName⟩
      rw [hName]
      exact ⟨hSegment, t, rfl⟩
    · refine (yieldsAt_ident hs).bind ?_
      rintro name ⟨hToken, hPlain, t, rfl⟩
      have hTakes : takesArguments name = true := by rw [takesArguments, hPlain, Bool.true_or]
      apply (hRest name (isSegment_iff.mpr ⟨hToken, .inl hPlain⟩) hTakes).imp
      rintro segment ⟨hSegment, rfl⟩
      exact ⟨hSegment, t, rfl⟩

/-- The segments of a path, of which the first one is the next token unless `::` is. -/
structure AnyPath.NamedFrom (p : AnyPath) (s : Tokens) : Prop where
  segments : ∀ segment ∈ p.segments, segment.wellNamed = true
  head : p.leadingColon = true ∨
    ∃ first t, p.segments.head? = some first ∧ s = .ident first.name :: t

theorem yields_pathSegment {inExpr : Bool} :
    Yields (pathSegment g bound inExpr) fun segment => segment.wellNamed = true := fun _ hs =>
  (yieldsAt_pathSegment hs).imp fun _ h => h.1

theorem yields_moreSegments {inExpr : Bool} : Yields (moreSegments g bound inExpr)
    fun segments => ∀ segment ∈ segments, segment.wellNamed = true :=
  Yields.whileSees (Leaves.bind fun _ => yields_pathSegment) _

theorem yieldsAt_plainPath {inExpr : Bool} {s : Tokens} (hs : AllNamed s) :
    YieldsAt (plainPath g bound inExpr) s fun p => p.qualified = false ∧ p.NamedFrom s := by
  refine yieldsAt_opIf_bind hs ?_ fun _ => ?_
  · refine yields_pathSegment.bind fun first hFirst => yields_moreSegments.bind fun more hMore =>
      yields_pure ⟨rfl, List.forall_mem_cons.mpr ⟨hFirst, hMore⟩, .inl rfl⟩
  · refine (yieldsAt_pathSegment hs).bind fun first ⟨hFirst, t, ht⟩ =>
      yields_moreSegments.bind fun more hMore => yields_pure
        ⟨rfl, List.forall_mem_cons.mpr ⟨hFirst, hMore⟩, .inr ⟨first, t, rfl, ht⟩⟩

theorem yieldsAt_anyPath {inExpr : Bool} {s : Tokens} (hs : AllNamed s) :
    YieldsAt (anyPath g inExpr) s fun p => p.qualified = true ∨ p.NamedFrom s := by
  unfold anyPath anyPathWith
  refine yieldsAt_bind_of_looks rfl (.ite (fun _ => ?_) fun _ => ?_)
  · refine (?_ : Yields _ _) s hs
    refine Leaves.bind fun _ => Leaves.bind fun _ => Leaves.bind fun _ => ?_
    refine .ite (fun _ => Leaves.bind fun _ => Leaves.bind fun _ => ?_) fun _ => ?_
    all_goals exact Leaves.bind fun _ => Leaves.bind fun _ => Leaves.bind fun _ => Leaves.bind fun _ =>
      yields_pure (.inl rfl)
  · exact (yieldsAt_plainPath hs).imp fun p h => .inr h.2

theorem yields_parenContent :
    Yields (parenContent g) fun c => ∀ inner, c = .single inner → inner.wellNamed = true := by
  refine Leaves.bind fun s => .ite (fun _ => yields_pure nofun) fun _ => .ite (fun _ => ?_)
    fun _ => .ite (fun _ => ?_) fun _ => ?_
  · exact Leaves.bind fun _ => yields_pure nofun
  · exact Leaves.bind fun _ => yields_pure nofun
  · refine (yields_type true).bind fun first hFirst => Leaves.bind fun _ => .ite (fun _ => ?_) fun _ => ?_
    · exact Leaves.bind fun _ => yields_pure nofun
    · exact yields_pure fun inner h => by
        cases h
        exact hFirst

theorem wellNamed_path_of_startsPath {s : Tokens} {p : AnyPath} (hStarts : startsPath s = true)
    (h : p.NamedFrom s) (tokens : Tokens) :
    (TypeExpr.path tokens p.leadingColon p.segments).wellNamed = true := by
  refine TypeExpr.path_wellNamed ?_ h.segments
  rcases h.head with hColon | ⟨first, t, hFirst, rfl⟩
  · exact .inl hColon
  · rw [hFirst, Option.map_some]
    refine .inr fun hTry => ?_
    obtain hName : first.name = "try" := Option.some.inj hTry
    rw [hName] at hStarts
    cases hStarts

theorem yields_typeShape (allowPlus : Bool) :
    Yields (typeShape g allowPlus) fun shape => ∀ tokens, (shape tokens).wellNamed = true := by
  have hOther : Yields (pure TypeExpr.other : Parser (Tokens → TypeExpr))
      fun shape => ∀ tokens, (shape tokens).wellNamed = true := yields_pure fun _ => rfl
  unfold typeShape
  refine Leaves.bind fun higher => yields_rest_bind fun s hs => yieldsAt_guard_bind fun _ => ?_
  refine .ite (fun _ => ?parens) fun _ => .ite (fun _ => ?function) fun _ =>
    .ite (fun hStarts => ?path) fun _ => (?_ : Yields _ _) s hs
  case parens =>
    refine (yields_parenContent.group _ s hs).bind fun content hContent => ?_
    cases content with
    | empty => exact yields_pure fun _ => rfl
    | tuple => exact hOther
    | object => exact yields_pure fun _ => rfl
    | optionalBound => exact Leaves.bind fun _ => hOther
    | single inner =>
      refine Leaves.bind fun _ => .ite (fun _ => Leaves.bind fun _ => hOther) fun _ => ?_
      exact yields_pure fun _ => hContent inner rfl
  case function => exact Leaves.bind (fun _ => hOther) s hs
  case path =>
    refine (yieldsAt_anyPath hs).bind fun path hPath => Leaves.bind fun _ => .ite (fun _ => ?call)
      fun _ => .ite (fun _ => ?bounds) fun _ => .ite (fun _ => hOther) fun hPlain => ?_
    case call => exact Leaves.bind fun _ => Leaves.bind fun _ => hOther
    case bounds => exact .ite (fun _ => Leaves.bind fun _ => hOther) fun _ => hOther
    exact yields_pure (wellNamed_path_of_startsPath hStarts (hPath.resolve_left hPlain))
  refine .ite (fun _ => ?dyn) fun _ => .ite (fun _ => ?slice) fun _ => .ite (fun _ => ?pointer)
    fun _ => .ite (fun _ => ?reference) fun _ => .ite (fun _ => Leaves.bind fun _ => hOther)
    fun _ => .ite (fun _ => ?impl) fun _ => .ite (fun _ => Leaves.bind fun _ => hOther)
    fun _ => .ite (fun _ => Leaves.bind fun _ => hOther) fun _ => yields_fail
  case dyn => exact Leaves.bind fun _ => Leaves.bind fun _ => Leaves.bind fun _ => hOther
  case slice =>
    have hElement : Yields (brackets do
        let element ← g.type true
        if ← sees (peekOp ";") then
          op ";"
          skip (g.expr true)
          pure none
        else pure (some element)) fun o => ∀ element ∈ o, element.wellNamed = true := by
      refine Yields.group ((yields_type true).bind fun element hElement => ?_) _
      refine Leaves.bind fun _ => .ite (fun _ => ?_) fun _ => yields_pure (by simpa using hElement)
      exact Leaves.bind fun _ => Leaves.bind fun _ => yields_pure nofun
    refine hElement.bind fun o ho => ?_
    cases o with
    | none => exact hOther
    | some element => exact yields_pure fun _ => ho element rfl
  case pointer =>
    refine Leaves.bind fun _ => Leaves.bind fun _ => .ite (fun _ => ?_) fun _ => ?_
    all_goals exact Leaves.bind fun _ => Leaves.bind fun _ => hOther
  case reference =>
    refine Leaves.bind fun _ => (yields_lifetime.ifSees _).bind fun lifetime hLifetime =>
      Leaves.bind fun _ => (yields_type false).bind fun target hTarget => yields_pure fun _ => ?_
    rw [TypeExpr.wellNamed, TypeExpr.parts, List.all_append, Bool.and_eq_true]
    refine ⟨?_, hTarget⟩
    simpa [TypePart.wellNamed] using hLifetime
  case impl => exact Leaves.bind fun _ => Leaves.bind fun _ => hOther

theorem yields_typeStep (allowPlus : Bool) :
    Yields (typeStep g allowPlus) fun t => t.wellNamed = true :=
  (yields_typeShape allowPlus).written.bind fun _ h => yields_pure (h _)

end Parser
end TraitClient.Source
