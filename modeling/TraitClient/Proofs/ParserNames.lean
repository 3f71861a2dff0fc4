import TraitClient.Proofs.ParserLaws
import TraitClient.Proofs.SourceNames

/-!
# Names through the grammar

Each parser of the grammar leaves named tokens, as long as those do that it calls itself through.
-/
namespace TraitClient.Source.Parser

set_option synthInstance.maxSize 100000

def ReadsSelf (s t : Tokens) : Prop :=
  s = .ident "self" :: t ∨ s = .ident "mut" :: .ident "self" :: t

/-- Parts of a grammar that leave named tokens, and yield syntax with names as the parser takes
them. -/
class YieldsNames (g : Grammar) : Prop where
  type : ∀ allowPlus, Yields (g.type allowPlus) fun t => t.wellNamed = true
  expr : ∀ allowStruct, Leaves (g.expr allowStruct)
  operand : ∀ allowStruct, Leaves (g.operand allowStruct)
  operators : ∀ allowStruct base left, Leaves (g.operators allowStruct base left)
  statementExpr : Leaves g.statementExpr
  pattern : Leaves g.pattern
  /-- A pattern that is a plain name has an identifier, or reads a receiver. -/
  plainName : ∀ {s t name}, AllNamed s → Reads g.pattern s (.plainName name) t →
    isName name = true ∨ name = "self" ∧ ReadsSelf s t
  statements : Leaves g.statements
  item : Yields g.item fun item => item.wellNamed = true

section Grammar

variable {g : Grammar} [h : YieldsNames g]

instance (allowPlus : Bool) : Leaves (g.type allowPlus) := (h.type allowPlus).leaves

instance (allowStruct : Bool) : Leaves (g.expr allowStruct) := h.expr allowStruct

instance (allowStruct : Bool) : Leaves (g.operand allowStruct) := h.operand allowStruct

instance (allowStruct : Bool) (base : Precedence) (left : ExprKind) :
    Leaves (g.operators allowStruct base left) := h.operators allowStruct base left

instance : Leaves g.statementExpr := h.statementExpr

instance : Leaves g.pattern := h.pattern

instance : Leaves g.statements := h.statements

instance : Leaves g.item := h.item.leaves

/-! ## Attributes and blocks -/

instance : Leaves (attributeArguments g) := by
  unfold attributeArguments
  refine leaves_bind inferInstance fun s => ?_
  split
  · infer_instance
  · split
    · refine leaves_bind inferInstance fun _ => leaves_bind inferInstance fun value => ?_
      split <;> infer_instance
    · infer_instance

instance : Leaves namePath := by
  have hNames (fuel : Nat) : Leaves (namePath.names fuel) := by
    induction fuel with
    | zero => unfold namePath.names; infer_instance
    | succ fuel ih => unfold namePath.names; infer_instance
  unfold namePath
  infer_instance

instance : Leaves (attributeContent g) := by unfold attributeContent; infer_instance

instance : Leaves (outerAttributes g) := by unfold outerAttributes; infer_instance

instance : Leaves (innerAttributes g) := by unfold innerAttributes; infer_instance

instance : Leaves (block g) := by unfold block; infer_instance

/-! ## Types -/

section Bounds

variable {bound : Parser Unit} [Leaves bound]

instance {α : Type} {item : Parser α} [Leaves item] (stop : Tokens → Bool) :
    Leaves (boundsUntil item stop) := by
  have hFuel (fuel : Nat) : Leaves (boundsUntil.go item stop fuel) := by
    induction fuel with
    | zero => unfold boundsUntil.go; infer_instance
    | succ fuel ih => unfold boundsUntil.go; infer_instance
  exact ⟨fun s hs r hr => (hFuel (s.length + 1)).yields s hs r hr⟩

instance : Leaves (boundLifetimes g) := by unfold boundLifetimes; infer_instance

instance : Leaves (constArgument g) := by unfold constArgument; infer_instance

instance : Leaves (genericArgument g bound) := by unfold genericArgument; infer_instance

instance : Leaves (angleArguments g bound) := by unfold angleArguments; infer_instance

instance (allowPlus : Bool) : Leaves (returnType g allowPlus) := by unfold returnType; infer_instance

instance : Leaves (parenthesizedArguments g) := by unfold parenthesizedArguments; infer_instance

instance (inExpr : Bool) : Leaves (pathSegment g bound inExpr) := by unfold pathSegment; infer_instance

instance (inExpr : Bool) : Leaves (moreSegments g bound inExpr) := by unfold moreSegments; infer_instance

instance (inExpr : Bool) : Leaves (plainPath g bound inExpr) := by unfold plainPath; infer_instance

instance (inExpr : Bool) : Leaves (anyPathWith g bound inExpr) := by unfold anyPathWith; infer_instance

instance : Leaves boundConstness := by unfold boundConstness; infer_instance

instance (allowConst : Bool) : Leaves (traitBoundWith g bound allowConst) := by
  unfold traitBoundWith
  infer_instance

instance : Leaves preciseCapture := by unfold preciseCapture; infer_instance

instance (allowCapture allowConst : Bool) : Leaves (boundWith g bound allowCapture allowConst) := by
  unfold boundWith
  infer_instance

end Bounds

/-- By induction on how deep bounds are inside each other. -/
instance : Leaves (innerBound g) := by
  have hDepth (depth : Nat) : Leaves (nestedBound g depth) := by
    induction depth with
    | zero => exact ⟨fun s hs r hr => by cases hr⟩
    | succ depth ih =>
      have hBound : Leaves (skip (boundWith g (nestedBound g depth) false true)) := inferInstance
      exact ⟨fun s hs r hr => hBound.yields s hs r (by rwa [nestedBound] at hr)⟩
  exact ⟨fun s hs r hr => (hDepth (TokenTree.listSize s + 1)).yields s hs r hr⟩

instance (allowCapture allowConst : Bool) : Leaves (bound g allowCapture allowConst) := by
  unfold bound
  infer_instance

instance (inExpr : Bool) : Leaves (anyPath g inExpr) := by unfold anyPath; infer_instance

instance : Leaves (turbofish g) := by unfold turbofish; infer_instance

instance : Leaves macroContent := by unfold macroContent; infer_instance

instance (allowCapture allowConst : Bool) : Leaves (moreBounds g allowCapture allowConst) := by
  have hFuel (fuel : Nat) : Leaves (moreBounds.go g allowCapture allowConst fuel) := by
    induction fuel with
    | zero => unfold moreBounds.go; infer_instance
    | succ fuel ih => unfold moreBounds.go; infer_instance
  exact ⟨fun s hs r hr => (hFuel (s.length + 1)).yields s hs r hr⟩

instance (allowPlus allowCapture : Bool) : Leaves (traitObjectBounds g allowPlus allowCapture) := by
  unfold traitObjectBounds
  infer_instance

instance : Leaves (plusBounds g) := by unfold plusBounds; infer_instance

instance : Leaves abi := by unfold abi; infer_instance

instance : Leaves variadicDots := by unfold variadicDots; infer_instance

instance (isFirst : Bool) : Leaves (functionPointerParameter g isFirst) := by
  unfold functionPointerParameter
  infer_instance

instance : Leaves (functionPointerParameters g) := by
  have hFuel (fuel : Nat) (isFirst : Bool) : Leaves (functionPointerParameters.go g isFirst fuel) := by
    induction fuel generalizing isFirst with
    | zero => unfold functionPointerParameters.go; infer_instance
    | succ fuel ih => unfold functionPointerParameters.go; infer_instance
  exact ⟨fun s hs r hr => (hFuel (s.length + 1) true).yields s hs r hr⟩

instance : Leaves (functionPointer g) := by unfold functionPointer; infer_instance

instance : Leaves (parenContent g) := by unfold parenContent; infer_instance

instance (stop : Tokens → Bool) : Leaves (lifetimeBounds stop) := by unfold lifetimeBounds; infer_instance

instance (stop : Tokens → Bool) : Leaves (bounds g stop) := by unfold bounds; infer_instance

instance : Leaves (genericParameter g) := by unfold genericParameter; infer_instance

instance : Leaves (generics g) := by unfold generics; infer_instance

instance : Leaves (wherePredicate g) := by unfold wherePredicate; infer_instance

instance : Leaves (whereClause g) := by
  have hFuel (ends : Tokens → Bool) (fuel : Nat) : Leaves (whereClause.go g ends fuel) := by
    induction fuel with
    | zero => unfold whereClause.go; infer_instance
    | succ fuel ih => unfold whereClause.go; infer_instance
  unfold whereClause
  infer_instance

/-! ## Patterns -/

instance : Leaves (patternAlternatives g) := by unfold patternAlternatives; infer_instance

instance : Leaves rangeOperator := by unfold rangeOperator; infer_instance

instance : Leaves (rangeBound g) := by unfold rangeBound; infer_instance

instance : Leaves (rangeRest g) := by unfold rangeRest; infer_instance

instance : Leaves (fieldPattern g) := by unfold fieldPattern; infer_instance

instance : Leaves (structPattern g) := by unfold structPattern; infer_instance

instance : Leaves (pathPattern g) := by unfold pathPattern; infer_instance

instance : Leaves (identPattern g) := by unfold identPattern; infer_instance

instance : Leaves (patternStep g) := by unfold patternStep; infer_instance

/-! ## Expressions -/

instance : Leaves rangeLimits := by unfold rangeLimits; infer_instance

instance : Leaves (exprList g) := by unfold exprList; infer_instance

instance : Leaves label := by unfold label; infer_instance

instance : Leaves (fieldValue g) := by unfold fieldValue; infer_instance

instance : Leaves (structFields g) := by unfold structFields; infer_instance

instance (allowStruct : Bool) : Leaves (pathExpr g allowStruct) := by unfold pathExpr; infer_instance

instance : Leaves (closureParameter g) := by unfold closureParameter; infer_instance

instance (allowStruct : Bool) : Leaves (closure g allowStruct) := by unfold closure; infer_instance

instance (fuel : Nat) : Leaves (ifExpr g fuel) := by
  induction fuel with
  | zero => unfold ifExpr; infer_instance
  | succ fuel ih => unfold ifExpr; infer_instance

instance : Leaves (matchArms g) := by unfold matchArms; infer_instance

instance : Leaves (blockLike g) := by unfold blockLike; infer_instance

instance (allowStruct : Bool) : Leaves (optionalValue g allowStruct) := by
  unfold optionalValue
  infer_instance

instance : Leaves (parenExpr g) := by unfold parenExpr; infer_instance

instance : Leaves (arrayExpr g) := by unfold arrayExpr; infer_instance

instance (allowStruct : Bool) (precedence : Precedence) :
    Leaves (rightSide g allowStruct precedence) := by
  have hFuel (kind : ExprKind) (fuel : Nat) :
      Leaves (rightSide.go g allowStruct precedence kind fuel) := by
    induction fuel generalizing kind with
    | zero => unfold rightSide.go; infer_instance
    | succ fuel ih => unfold rightSide.go; infer_instance
  unfold rightSide
  infer_instance

instance (closed allowStruct : Bool) : Leaves (rangeEnd g closed allowStruct) := by
  unfold rangeEnd
  infer_instance

instance (allowStruct : Bool) : Leaves (atom g allowStruct) := by
  have hBuiltin (token : Parser Unit) (hToken : Leaves token) : Leaves (do
      word "builtin"
      op "#"
      skip ident
      skip (parens (toEnd token))) := inferInstance
  unfold atom
  refine leaves_bind inferInstance fun s => ?_
  dsimp only
  repeat' refine leaves_ite ?_ ?_
  all_goals try infer_instance
  -- What stands in the parentheses of a builtin is taken token by token.
  refine leaves_bind (hBuiltin _ ⟨fun s hs r hr => ?_⟩) fun _ => inferInstance
  cases s with
  | nil => cases hr
  | cons t s =>
    cases hr
    exact ⟨hs.tail, trivial⟩

instance (kind : ExprKind) : Leaves (trailers g kind) := by
  have hFuel (fuel : Nat) (kind : ExprKind) : Leaves (trailers.go g kind fuel) := by
    induction fuel generalizing kind with
    | zero => unfold trailers.go; infer_instance
    | succ fuel ih =>
      unfold trailers.go
      refine leaves_bind inferInstance fun s => leaves_ite inferInstance (leaves_ite ?_ inferInstance)
      refine leaves_bind inferInstance fun _ => leaves_bind inferInstance fun s => ?_
      split <;> infer_instance
  exact ⟨fun s hs r hr => (hFuel (s.length + 1) kind).yields s hs r hr⟩

instance : Leaves (statementExprStep g) := by unfold statementExprStep; infer_instance

instance (allowStruct : Bool) (base : Precedence) (left : ExprKind) :
    Leaves (operatorsStep g allowStruct base left) := by
  have hFuel (fuel : Nat) (left : ExprKind) : Leaves (operatorsStep.go g allowStruct base left fuel) := by
    induction fuel generalizing left with
    | zero => unfold operatorsStep.go; infer_instance
    | succ fuel ih =>
      unfold operatorsStep.go
      refine leaves_bind inferInstance fun s => leaves_ite inferInstance ?_
      split <;> infer_instance
  unfold operatorsStep
  infer_instance

instance (allowStruct : Bool) : Leaves (operandStep g allowStruct) := by unfold operandStep; infer_instance

instance (allowStruct : Bool) : Leaves (exprStep g allowStruct) := by unfold exprStep; infer_instance

/-! ## Items -/

instance : Leaves restriction := by unfold restriction; infer_instance

instance : Leaves visibility := by unfold visibility; infer_instance

instance : Leaves (receiver g) := by unfold receiver; infer_instance

instance : Leaves (bodyOrSemicolon g) := by unfold bodyOrSemicolon; infer_instance

instance : Leaves itemMacro := by unfold itemMacro; infer_instance

instance : Leaves (namedField g) := by unfold namedField; infer_instance

instance : Leaves (unnamedField g) := by unfold unnamedField; infer_instance

instance : Leaves (namedFields g) := by unfold namedFields; infer_instance

instance : Leaves (unnamedFields g) := by unfold unnamedFields; infer_instance

instance : Leaves (structItem g) := by unfold structItem; infer_instance

instance : Leaves (variant g) := by unfold variant; infer_instance

instance : Leaves (enumItem g) := by unfold enumItem; infer_instance

instance : Leaves (unionItem g) := by unfold unionItem; infer_instance

instance : Leaves (constItem g) := by unfold constItem; infer_instance

instance : Leaves (staticItem g) := by unfold staticItem; infer_instance

instance (whereBefore whereAfter : Bool) : Leaves (typeItem g whereBefore whereAfter) := by
  unfold typeItem
  infer_instance

instance (ends : Tokens → Bool) : Leaves (supertraits g ends) := by unfold supertraits; infer_instance

instance : Leaves macroItem := by unfold macroItem; infer_instance

instance : Leaves externCrate := by unfold externCrate; infer_instance

end Grammar

end TraitClient.Source.Parser
