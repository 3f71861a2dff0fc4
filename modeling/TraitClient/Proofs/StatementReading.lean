import TraitClient.Proofs.ExpressionReading

/-!
# Reading statements

The tokens of legible statements are read as the statements of a block.  What a statement begins
with decides how it is read: no macro, item or block can be taken for the expressions of generated
code.
-/
namespace TraitClient

open Code (IsName)

namespace Source.Parser

variable {g : Grammar}

/-! ## Beginnings -/

/-- How a statement begins that is an expression. -/
structure BeginsExpression (s : Tokens) : Prop where
  nonempty : s ≠ []
  hash : peekOp "#" s = false
  dot : peekOp "." s = false
  question : peekOp "?" s = false
  semicolon : peekOp ";" s = false
  braced : bracedMacroLength? s = false
  letWord : peekWord "let" s = false
  elseWord : peekWord "else" s = false
  item : startsItem s = false
  blockLike : startsBlockLike s = false

theorem bind_eq_none_of_left {α β : Type} {p : Parser α} (f : α → Parser β) {s : Tokens}
    (hp : p s = none) : (p >>= f) s = none := by
  simp only [bind_apply, hp]

theorem bind_eq_none {α β : Type} {p : Parser α} {f : α → Parser β} {s t : Tokens} {a : α}
    (hp : Reads p s a t) (hf : f a t = none) : (p >>= f) s = none := by
  obtain ⟨w, hp⟩ := hp
  simp only [bind_apply, hp, hf]

def EndsAt {α : Type} (p : Parser α) (s t : Tokens) : Prop := Takes p s t ∨ p s = none

theorem names_last (fuel : Nat) (name : String) {t : Tokens} (hEnds : peekOp "::" t = false) :
    EndsAt (namePath.names fuel) (.ident name :: t) t := by
  cases fuel with
  | zero => exact .inr rfl
  | succ fuel =>
    cases hSees : peekIdent (.ident name :: t) || peekPathWord (.ident name :: t) with
    | false => exact .inr (bind_eq_none (reads_sees _ _) (by rw [hSees]; rfl))
    | true =>
      refine .inl ((reads_sees _ _).then ?_)
      rw [hSees]
      exact (reads_anyIdent name t).then ((reads_opIf_false hEnds).then (takes_pure [name] t))

theorem names_more {fuel : Nat} (name : String) {s t : Tokens}
    (h : EndsAt (namePath.names fuel) s t) :
    EndsAt (namePath.names (fuel + 1)) (.ident name :: (Tokens.operator "::" ++ s)) t := by
  cases hSees : peekIdent (.ident name :: (Tokens.operator "::" ++ s)) ||
      peekPathWord (.ident name :: (Tokens.operator "::" ++ s)) with
  | false => exact .inr (bind_eq_none (reads_sees _ _) (by rw [hSees]; rfl))
  | true =>
    rcases h with hNames | hNone
    · refine .inl ((reads_sees _ _).then ?_)
      rw [hSees]
      refine (reads_anyIdent name _).then ((reads_opIf "::" s).then (hNames.bind fun names => ?_))
      exact takes_pure (name :: names) t
    · refine .inr (bind_eq_none (reads_sees _ _) ?_)
      rw [hSees]
      refine bind_eq_none (reads_anyIdent name _) (bind_eq_none (reads_opIf "::" s) ?_)
      exact bind_eq_none_of_left _ hNone

theorem names_endsAt (fuel : Nat) (first : String) (rest : List String) {t : Tokens}
    (hEnds : peekOp "::" t = false) :
    EndsAt (namePath.names fuel) (.ident first :: (laterSegments rest ++ t)) t := by
  induction rest generalizing first fuel with
  | nil => exact names_last fuel first hEnds
  | cons next rest ih =>
    rw [laterSegments_cons]
    cases fuel with
    | zero => exact .inr rfl
    | succ fuel => exact names_more first (ih fuel next)

theorem namePath_endsAt {isGlobal : Bool} {names : List String} (hNonempty : names ≠ []) {t : Tokens}
    (hEnds : peekOp "::" t = false) : EndsAt namePath (pathStart isGlobal names ++ t) t := by
  obtain ⟨first, rest, rfl⟩ := List.exists_cons_of_ne_nil hNonempty
  have hStart : Reads (opIf "::") (pathStart isGlobal (first :: rest) ++ t) isGlobal
      (.ident first :: (laterSegments rest ++ t)) := by
    rw [pathStart, separated_eq]
    cases isGlobal with
    | true =>
      rw [if_pos rfl, List.append_assoc]
      exact reads_opIf "::" _
    | false => exact reads_opIf_false (by simp)
  rcases names_endsAt _ first rest hEnds with hNames | hNone
  · refine .inl (hStart.then ((reads_rest _).then (hNames.bind fun names => ?_)))
    exact takes_pure (⟨isGlobal, names⟩ : PlainPath) t
  · refine .inr (bind_eq_none hStart (bind_eq_none (reads_rest _) ?_))
    exact bind_eq_none_of_left _ hNone

theorem callsNothing_pathStart {isGlobal : Bool} {names : List String} (hNonempty : names ≠ []) {t : Tokens}
    (hEnds : EndsPath t) : bracedMacroLength? (pathStart isGlobal names ++ t) = false ∧
      namesMacro (pathStart isGlobal names ++ t) = false := by
  unfold bracedMacroLength? namesMacro
  rcases namePath_endsAt hNonempty hEnds.colons with ⟨path, w, hPath⟩ | hNone
  · rw [hPath]
    simp [hEnds.bang]
  · rw [hNone]
    exact ⟨rfl, rfl⟩

theorem beginsExpression_borrow (s : Tokens) : BeginsExpression (Tokens.operator "&" ++ s) where
  nonempty := by simp [Tokens.operator, Tokens.ofOperatorChars]
  hash := rfl
  dot := rfl
  question := rfl
  semicolon := rfl
  braced := rfl
  letWord := rfl
  elseWord := rfl
  item := rfl
  blockLike := rfl

/-- A lone `crate` would begin an item. -/
theorem startsItem_path {isGlobal : Bool} {names : List String} (h : IsNamePath isGlobal names)
    (hCrate : names ≠ ["crate"]) {t : Tokens} (hEnds : EndsPath t) :
    startsItem (pathStart isGlobal names ++ t) = false := by
  have hWord (word : String) (hWord : word ∈ keywords ∧ word ∉ Code.pathWords) :
      peekWord word (pathStart isGlobal names ++ t) = false := (h.beginsPath t).peekWord hWord
  have hSecond (word : String) (peek : Tokens → Bool)
      (hColons : ∀ s, peek (Tokens.operator "::" ++ s) = false) (hEnd : peek t = false) :
      (peekWord word (pathStart isGlobal names ++ t) &&
        peek2 peek (pathStart isGlobal names ++ t)) = false :=
    peek2_pathStart h.nonempty hColons hEnd word
  have hIdent : peekIdent t = false := by
    cases t with
    | nil => rfl
    | cons token t =>
      cases token with
      | ident name => exact absurd hEnds.word (by simp [peekAnyIdent])
      | punct | literal | group => rfl
  have hLone : (peekWord "crate" (pathStart isGlobal names ++ t) &&
      !peek2 (peekOp "::") (pathStart isGlobal names ++ t)) = false := by
    obtain ⟨first, rest, rfl⟩ := List.exists_cons_of_ne_nil h.nonempty
    rw [pathStart, separated_eq]
    cases isGlobal with
    | true => rfl
    | false =>
      rw [if_neg Bool.false_ne_true, List.nil_append, List.cons_append, peek2_ident]
      cases rest with
      | nil =>
        have hFirst : first ≠ "crate" := by simpa using hCrate
        simp [hFirst]
      | cons next rest => simp [laterSegments_cons, peekOp_operator]
  have hUnion := hSecond "union" peekIdent (fun _ => rfl) hIdent
  have hAuto := hSecond "auto" (peekWord "trait") (fun _ => rfl) (hEnds.peekWord "trait")
  have hUnsafe := hSecond "default" (peekWord "unsafe") (fun _ => rfl) (hEnds.peekWord "unsafe")
  have hImpl := hSecond "default" (peekWord "impl") (fun _ => rfl) (hEnds.peekWord "impl")
  simp only [startsItem, hWord "pub" (by decide), hLone, hWord "extern" (by decide),
    hWord "use" (by decide), hWord "static" (by decide), hWord "const" (by decide),
    hWord "unsafe" (by decide), hWord "async" (by decide), hWord "fn" (by decide),
    hWord "mod" (by decide), hWord "type" (by decide), hWord "struct" (by decide),
    hWord "enum" (by decide), hUnion, hAuto, hWord "trait" (by decide), Bool.and_or_distrib_left,
    hUnsafe, hImpl, hWord "impl" (by decide), hWord "macro" (by decide),
    (callsNothing_pathStart h.nonempty hEnds).2, Bool.false_and, Bool.or_false]

theorem beginsExpression_path {isGlobal : Bool} {names : List String} (h : IsNamePath isGlobal names)
    (hCrate : names ≠ ["crate"]) {t : Tokens} (hEnds : EndsPath t) :
    BeginsExpression (pathStart isGlobal names ++ t) := by
  have hBegins := h.beginsPath t
  have hWord (word : String) (hWord : word ∈ keywords ∧ word ∉ Code.pathWords) :
      peekWord word (pathStart isGlobal names ++ t) = false := hBegins.peekWord hWord
  have hNonempty : pathStart isGlobal names ++ t ≠ [] := by
    simp [Code.pathStart_ne_nil h.nonempty]
  refine ⟨hNonempty, hBegins.peekOp (by decide), hBegins.peekOp (by decide),
    hBegins.peekOp (by decide), hBegins.peekOp (by decide), (callsNothing_pathStart h.nonempty hEnds).1,
    hWord "let" (by decide), hWord "else" (by decide), startsItem_path h hCrate hEnds, ?_⟩
  simp only [startsBlockLike, hWord "if" (by decide), hWord "while" (by decide),
    hWord "for" (by decide), hWord "loop" (by decide), hWord "match" (by decide), hBegins.notTry,
    hWord "unsafe" (by decide), hWord "const" (by decide), hBegins.peekGroup, hBegins.peekLifetime,
    Bool.false_and, Bool.or_false]

theorem Opening.beginsExpression {s : Tokens} (h : Opening true s) : BeginsExpression s := by
  cases h with
  | path h hCrate hEnds => exact beginsExpression_path h hCrate hEnds

/-! ## Statements that are expressions -/

theorem takesValue_statementExprStep {s t u : Tokens} (hBegins : BeginsExpression s)
    (hOperand : TakesValue (g.operand true) s t)
    (hOperators : ∀ kind, kind ≠ .range → TakesValue (g.operators true .lowest kind) t u) :
    TakesValue (statementExprStep g) s u := by
  refine (reads_whileSees_nil hBegins.hash).takes.skip.value ((reads_rest s).value ?_)
  rw [hBegins.blockLike, if_neg Bool.false_ne_true]
  exact hOperand.bind hOperators

theorem reads_expressionStatement {s t : Tokens} (hBegins : BeginsExpression s)
    (h : TakesValue g.statementExpr s (Tokens.operator ";" ++ t)) :
    Reads (statement g) s false t := by
  obtain ⟨kind, -, h⟩ := h
  refine (reads_whileSees_nil hBegins.hash).bind ((reads_rest s).bind ?_)
  simp only [hBegins.braced, hBegins.letWord, hBegins.item, Bool.false_eq_true, if_false]
  exact h.bind ((reads_opIf ";" t).bind (reads_pure false t))

theorem takes_resultStatement {s : Tokens} (hBegins : BeginsExpression s)
    (h : TakesValue g.statementExpr s []) : Takes (statement g) s [] := by
  obtain ⟨kind, -, h⟩ := h
  refine (reads_whileSees_nil hBegins.hash).then ((reads_rest s).then ?_)
  simp only [hBegins.braced, hBegins.letWord, hBegins.item, Bool.false_eq_true, if_false]
  exact h.then ((reads_opIf_false rfl).then (takes_pure _ []))

theorem takesValue_assignment {kind : ExprKind} (hKind : kind ≠ .range) {s t : Tokens}
    (h : TakesValue (g.operand true) s t) (hEnds : EndsExpr t) :
    TakesValue (operatorsStep g true .lowest kind) (Tokens.operator "=" ++ s) t := by
  have hRight : Takes (rightSide g true .assign) s t := by
    refine h.takes.bind fun first => (reads_rest t).then ((reads_rest t).then ?_)
    have hNext : nextPrecedence t = .lowest := by
      simp only [nextPrecedence, hEnds.operator, hEnds.equals, hEnds.range, hEnds.peekWord,
        Bool.false_and, Bool.false_eq_true, if_false]
    rw [hNext]
    exact takes_pure () t
  have hLength : (Tokens.operator "=" ++ s).length = s.length + 1 := by
    simp [Nat.add_comm]
  refine (reads_rest _).value ?_
  rw [hLength]
  refine (reads_rest _).value ?_
  rw [if_neg (by simpa using hKind)]
  refine (reads_op "=" s).value (hRight.value fun _ => (reads_rest t).value ?_)
  rw [if_neg (by decide), hEnds.operator]
  simp only [hEnds.equals, hEnds.range, hEnds.peekWord, Bool.false_and, Bool.and_false,
    Bool.false_eq_true, if_false]
  exact takesValue_pure (by decide) t

/-! ## Bindings -/

theorem reads_letStatement {pattern value t : Tokens}
    (hPattern : Takes g.pattern (pattern ++ (Tokens.operator "=" ++ (value ++ (Tokens.operator ";" ++ t))))
      (Tokens.operator "=" ++ (value ++ (Tokens.operator ";" ++ t))))
    (hValue : Takes (g.expr true) (value ++ (Tokens.operator ";" ++ t)) (Tokens.operator ";" ++ t)) :
    Reads (statement g)
      (.ident "let" :: (pattern ++ (Tokens.operator "=" ++ (value ++ (Tokens.operator ";" ++ t)))))
      false t := by
  obtain ⟨kind, hValue⟩ := hValue
  obtain ⟨written, hValue⟩ := Takes.written hValue
  have hLet : Reads (letStatement g)
      (.ident "let" :: (pattern ++ (Tokens.operator "=" ++ (value ++ (Tokens.operator ";" ++ t)))))
      () t := by
    refine (reads_word "let" _).bind (hPattern.skip.bind ((reads_opIf_false rfl).bind ?_))
    refine (reads_opIf "=" _).bind (hValue.bind ((reads_sees _ _).bind ?_))
    rw [show peekWord "else" (Tokens.operator ";" ++ t) = false from rfl, Bool.and_false]
    exact reads_op ";" t
  refine (reads_whileSees_nil rfl).bind ((reads_rest _).bind ?_)
  exact hLet.bind (reads_pure false t)

/-! ## Blocks -/

/-- How a statement begins behind another one, or how a block ends. -/
structure BeginsStatement (s : Tokens) : Prop where
  hash : peekOp "#" s = false
  dot : peekOp "." s = false
  question : peekOp "?" s = false
  semicolon : peekOp ";" s = false
  elseWord : peekWord "else" s = false

theorem beginsStatement_nil : BeginsStatement [] := by constructor <;> rfl

theorem BeginsExpression.beginsStatement {s : Tokens} (h : BeginsExpression s) : BeginsStatement s :=
  ⟨h.hash, h.dot, h.question, h.semicolon, h.elseWord⟩

theorem takes_block {body : Tokens} (hBegins : BeginsStatement body) (h : Takes g.statements body [])
    (t : Tokens) : Reads (block g) (.group .brace body :: t) () t := by
  obtain ⟨_, h⟩ := h
  refine reads_group .brace ?_ t
  exact (reads_whileSees_nil (by simp [hBegins.hash])).takes.skip.bind h

theorem reads_blockStatement {word : String} {s t : Tokens} (hWord : word ∈ ["for", "if"])
    (h : Reads (blockLike g) (.ident word :: s) .blockLike t) (hBegins : BeginsStatement t)
    (hAngle : peekOp "<" s = false) :
    Reads (statement (Grammar.step g)) (.ident word :: s) false t := by
  have hStatement : Reads (statementExprStep g) (.ident word :: s) .blockLike t := by
    have hStarts : startsBlockLike (.ident word :: s) = true := by
      simp only [List.mem_cons, List.not_mem_nil, or_false] at hWord
      rcases hWord with rfl | rfl
      · simp [startsBlockLike, hAngle]
      · simp [startsBlockLike]
    refine (reads_whileSees_nil (by simp)).takes.skip.bind ((reads_rest _).bind ?_)
    rw [hStarts, if_pos rfl]
    refine h.bind ((reads_rest t).bind ?_)
    simp only [hBegins.dot, hBegins.question, Bool.false_and, Bool.or_false, Bool.false_eq_true, if_false]
    exact reads_pure _ t
  have hOthers : bracedMacroLength? (.ident word :: s) = false ∧
      peekWord "let" (.ident word :: s) = false ∧ startsItem (.ident word :: s) = false := by
    simp only [List.mem_cons, List.not_mem_nil, or_false] at hWord
    rcases hWord with rfl | rfl <;> exact ⟨rfl, rfl, rfl⟩
  refine (reads_whileSees_nil (by simp)).bind ((reads_rest _).bind ?_)
  simp only [hOthers, Bool.false_eq_true, if_false]
  exact hStatement.bind ((reads_opIf_false hBegins.semicolon).bind (reads_pure false t))

theorem reads_noLabel (word : String) (s : Tokens) :
    Reads label (.ident word :: s) () (.ident word :: s) :=
  (reads_sees _ _).bind (reads_pure () _)

theorem reads_for {bound : String} (hBound : isPlainName bound = true) {source body t : Tokens}
    (hSource : Takes ((Grammar.step g).expr false) (source ++ .group .brace body :: t)
      (.group .brace body :: t))
    (hBegins : BeginsStatement body) (hBody : Takes (Grammar.step g).statements body []) :
    Reads (blockLike (Grammar.step g))
      (.ident "for" :: .ident bound :: .ident "in" :: (source ++ .group .brace body :: t))
      .blockLike t := by
  have hPattern : Reads (patternAlternatives (Grammar.step g))
      (.ident bound :: .ident "in" :: (source ++ .group .brace body :: t)) (.plainName bound)
      (.ident "in" :: (source ++ .group .brace body :: t)) :=
    reads_alternatives rfl (reads_namePattern hBound (endsName_ident "in" _) false) rfl
  refine (reads_noLabel "for" _).bind ((reads_rest _).bind ?_)
  refine (reads_word "for" _).bind (hPattern.takes.skip.bind ((reads_word "in" _).bind ?_))
  exact hSource.skip.bind ((takes_block hBegins hBody t).bind (reads_pure _ t))

/-- `let Some(bound) = source` where no braces may follow a path. -/
theorem takes_letSome {bound : String} (hBound : isPlainName bound = true) {source t : Tokens}
    (hSource : TakesValue ((Grammar.step (Grammar.step g)).operand false) (source ++ t) t)
    (hEnds : EndsExpr t) :
    Takes ((Grammar.step (Grammar.step (Grammar.step (Grammar.step g)))).expr false)
      (.ident "let" :: .ident "Some" :: .group .parenthesis [.ident bound] ::
        (Tokens.operator "=" ++ (source ++ t))) t := by
  obtain ⟨kind, hPattern⟩ :=
    reads_somePattern (g := g) hBound (Tokens.operator "=" ++ (source ++ t))
  have hAlternatives : Takes (patternAlternatives (Grammar.step (Grammar.step g)))
      (.ident "Some" :: .group .parenthesis [.ident bound] :: (Tokens.operator "=" ++ (source ++ t)))
      (Tokens.operator "=" ++ (source ++ t)) := (reads_alternatives rfl hPattern rfl).takes
  have hLet : Takes (do
      word "let"
      skip (patternAlternatives (Grammar.step (Grammar.step g)))
      op "="
      let first ← (Grammar.step (Grammar.step g)).operand false
      skip ((Grammar.step (Grammar.step g)).operators false .compare first))
      (.ident "let" :: .ident "Some" :: .group .parenthesis [.ident bound] ::
        (Tokens.operator "=" ++ (source ++ t))) t := by
    obtain ⟨first, hFirst, hSource⟩ := hSource
    have hMore := takesValue_operatorsStep (g := Grammar.step g) hFirst hEnds false .compare
    refine (reads_word "let" _).then (hAlternatives.skip.then ((reads_op "=" _).then ?_))
    exact hSource.then ⟨(), hMore.takes.skip⟩
  have hAtom : TakesValue (atom (Grammar.step (Grammar.step g)) false)
      (.ident "let" :: .ident "Some" :: .group .parenthesis [.ident bound] ::
        (Tokens.operator "=" ++ (source ++ t))) t :=
    (reads_rest _).value (hLet.value fun _ => takesValue_pure (by decide) t)
  have hOperand := takesValue_operandStep (by constructor <;> rfl) hAtom (.done hEnds.toEndsOperand)
  exact (hOperand.bind fun kind hKind => takesValue_operatorsStep hKind hEnds false .lowest).takes

theorem reads_if {condition body t : Tokens}
    (hCondition : Takes (g.expr false) (condition ++ .group .brace body :: t)
      (.group .brace body :: t))
    (hBegins : BeginsStatement body) (hBody : Takes g.statements body []) (hEnds : BeginsStatement t) :
    Reads (blockLike g) (.ident "if" :: (condition ++ .group .brace body :: t)) .blockLike t := by
  have hIf (fuel : Nat) : Reads (ifExpr g (fuel + 1))
      (.ident "if" :: (condition ++ .group .brace body :: t)) () t := by
    refine (reads_word "if" _).bind (hCondition.skip.bind ((takes_block hBegins hBody t).bind ?_))
    exact (reads_wordIf_false hEnds.elseWord).bind (reads_pure () t)
  refine (reads_noLabel "if" _).bind ((reads_rest _).bind ?_)
  exact (hIf _).bind (reads_pure _ t)

/-! ## Values of the type itself -/

theorem takesValue_construct {fields : List String} (hFields : ∀ f ∈ fields, IsName f) :
    TakesValue (operandStep g true)
      [.ident "Self", .group .brace (Code.commaSeparated (fields.map fun f => [.ident f]))] [] := by
  have hSelf : IsNamePath false ["Self"] :=
    ⟨by simp, List.forall_mem_singleton.mpr ⟨by decide, .inr (by decide)⟩, .inr (by decide)⟩
  obtain ⟨path, hPlain, -, hPath⟩ := reads_exprPath (g := g) (t := [.group .brace
    (Code.commaSeparated (fields.map fun f => [.ident f]))]) hSelf rfl rfl
  have hField (f : String) (hf : f ∈ fields) (t : Tokens) (ht : EndsItem t) :
      Takes (fieldValue g) ([.ident f] ++ t) t := by
    refine (reads_whileSees_nil rfl).takes.skip.then ((reads_rest _).then ?_)
    rw [List.singleton_append, peekIdent_ident, (hFields f hf).plain, if_pos rfl]
    refine (reads_ident (hFields f hf).plain t).takes.skip.then ((reads_sees _ t).then ?_)
    have hNoValue : peekOp ":" t = false := by rcases ht with rfl | ⟨t, rfl⟩ <;> rfl
    rw [hNoValue]
    exact takes_pure () t
  have hItem (f : String) (hf : f ∈ fields) (t : Tokens) (ht : EndsItem t) :
      Takes (do
        if ← sees (peekOp "..") then
          op ".."
          if !(← sees peekEnd) then
            skip (g.expr true)
          guard (← sees peekEnd)
        else fieldValue g) ([.ident f] ++ t) t :=
    (reads_sees _ _).then (hField f hf t ht)
  obtain ⟨_, hList⟩ := takes_commaList (fun f _ => List.cons_ne_nil (TokenTree.ident f) []) hItem
  have hAtom : TakesValue (atom g true)
      [.ident "Self", .group .brace (Code.commaSeparated (fields.map fun f => [.ident f]))] [] := by
    refine (reads_rest _).value (hPath.value ((reads_rest _).value ?_))
    rw [hPlain]
    exact (reads_group .brace hList.takes.skip []).value (takesValue_pure (by decide) [])
  exact takesValue_operandStep (by constructor <;> rfl) hAtom (.done endsExpr_nil.toEndsOperand)

/-! ## Statements in a block -/

/-- One round of `statementsStep`. -/
def blockStep (g : Grammar) : Parser (Option Unit) := do
  skip <| whileSees (peekOp ";") (op ";")
  if ← sees peekEnd then pure none else
  let open_ ← statement g
  if open_ then guard (← sees peekEnd)
  pure (some ())

theorem reads_blockStep {isOpen : Bool} {s t : Tokens} (hNonempty : s ≠ [])
    (hSemicolon : peekOp ";" s = false) (h : Reads (statement g) s isOpen t)
    (hOpen : isOpen = true → t = []) : Reads (blockStep g) s (some ()) t := by
  refine (reads_whileSees_nil hSemicolon).takes.skip.bind ((reads_sees _ s).bind ?_)
  rw [show peekEnd s = false by simpa [peekEnd] using hNonempty]
  refine h.bind ?_
  cases isOpen with
  | false => exact reads_pure (some ()) t
  | true =>
    obtain rfl := hOpen rfl
    exact (reads_sees _ []).bind ((reads_guard rfl []).bind (reads_pure (some ()) []))

theorem reads_blockStep_end : Reads (blockStep g) [] none [] :=
  (reads_whileSees_nil rfl).takes.skip.bind ((reads_sees _ []).bind (reads_pure none []))

end Source.Parser

namespace Code

open Source Source.Parser

variable {rt : PathExpr}

theorem Expr.Legible.beginsExpression (hRuntime : rt.IsPlain) {e : Expr} (h : e.Legible)
    (hOpens : e.opensStatement = true) {t : Tokens} (hEnds : EndsPath t) :
    BeginsExpression (e.tokens rt ++ t) := by
  cases hOperand : e.isOperand with
  | true =>
    have hOpening := h.opening hRuntime hOperand hEnds
    rw [hOpens] at hOpening
    exact hOpening.beginsExpression
  | false =>
    cases h with
    | borrow =>
      rw [Expr.tokens, List.append_assoc]
      exact beginsExpression_borrow _
    | closure => cases hOpens
    | _ => cases hOperand

theorem Expr.Legible.takesStatementExpr (hRuntime : rt.IsPlain) {e : Expr} (h : e.Legible)
    (hOpens : e.opensStatement = true) {d : Nat}
    (hSize : 2 * TokenTree.listSize (e.tokens rt) + 2 ≤ d) {t : Tokens} (hEnds : EndsExpr t)
    (hBrace : peekGroup .brace t = false) :
    TakesValue (Grammar.ofDepth d).statementExpr (e.tokens rt ++ t) t := by
  obtain ⟨d, rfl⟩ := Nat.exists_eq_add_of_le' (Nat.le_of_add_left_le hSize)
  have hOperand : TakesValue ((Grammar.ofDepth (d + 1)).operand true) (e.tokens rt ++ t) t :=
    h.isRead hRuntime d (by omega) true t t (.done hEnds.toEndsOperand) (fun _ => hEnds) hBrace
  exact takesValue_statementExprStep (h.beginsExpression hRuntime hOpens hEnds.toEndsPath) hOperand
    fun kind hKind => takesValue_operatorsStep hKind hEnds true .lowest

theorem IsBlock.tail {st : Statement} {sts : List Statement} (h : IsBlock (st :: sts)) :
    IsBlock sts := by
  refine ⟨fun next hNext => h.legible next (List.mem_cons_of_mem _ hNext), fun next hNext => ?_⟩
  cases sts with
  | nil => cases hNext
  | cons second sts => exact h.running next (List.mem_cons_of_mem _ hNext)

theorem IsBlock.tail_eq_nil {st : Statement} {sts : List Statement} (h : IsBlock (st :: sts))
    (hResult : st.isResult = true) : sts = [] := by
  cases sts with
  | nil => rfl
  | cons next sts => exact absurd (h.running st List.mem_cons_self) (by simp [hResult])

namespace Statement

theorem Legible.begins (hRuntime : rt.IsPlain) {st : Statement} (h : st.Legible) {t : Tokens}
    (hResult : st.isResult = true → t = []) : BeginsStatement (st.tokens rt ++ t) := by
  cases h with
  | letValue | letPair | forEach | ifSome => constructor <;> rfl
  | assign hName _ =>
    exact ⟨rfl, rfl, rfl, rfl, peekWord_of_isPlainName hName.plain (by decide) _⟩
  | run h hOpens =>
    rw [tokens, List.append_assoc]
    exact (h.beginsExpression hRuntime hOpens (endsExpr_op ";" (by simp) t).toEndsPath).beginsStatement
  | result h hOpens =>
    rw [tokens, hResult rfl]
    exact (h.beginsExpression hRuntime hOpens endsExpr_nil.toEndsPath).beginsStatement
  | built => constructor <;> rfl

theorem tokens_ne_nil (hRuntime : rt.IsPlain) (st : Statement) : st.tokens rt ≠ [] := by
  cases st with
  | result e => exact Expr.tokens_ne_nil hRuntime e
  | _ => simp [tokens, op, Tokens.operator, Tokens.ofOperatorChars]

/-- The tokens are read as a statement at any depth that is enough for them.  A value is read only
at the end of its block. -/
def IsRead (rt : PathExpr) (st : Statement) : Prop :=
  ∀ d, 2 * TokenTree.listSize (st.tokens rt) + 4 ≤ d → ∀ t, BeginsStatement t →
    (st.isResult = true → t = []) →
    ∃ isOpen, (isOpen = true → t = []) ∧
      Reads (statement (Grammar.ofDepth d)) (st.tokens rt ++ t) isOpen t

theorem begins_list (hRuntime : rt.IsPlain) {sts : List Statement} (h : IsBlock sts) :
    BeginsStatement (listTokens rt sts) := by
  cases sts with
  | nil => exact beginsStatement_nil
  | cons st sts =>
    refine (h.legible st List.mem_cons_self).begins hRuntime fun hResult => ?_
    rw [h.tail_eq_nil hResult, listTokens]

theorem takes_statements (hRuntime : rt.IsPlain) {sts : List Statement} (h : IsBlock sts)
    (hRead : ∀ st ∈ sts, IsRead rt st) {d : Nat}
    (hSize : 2 * TokenTree.listSize (listTokens rt sts) + 4 ≤ d) :
    Takes (statementsStep (Grammar.ofDepth d)) (listTokens rt sts) [] := by
  have hSteps : ∃ units, Repeats (blockStep (Grammar.ofDepth d)) (listTokens rt sts) units [] := by
    induction sts with
    | nil => exact ⟨[], .nil reads_blockStep_end⟩
    | cons st sts ih =>
      obtain ⟨hHead, hRest⟩ := List.forall_mem_cons.mp hRead
      simp only [listTokens, TokenTree.listSize_append] at hSize
      obtain ⟨units, hMore⟩ := ih h.tail hRest (by omega)
      have hResult (hResult : st.isResult = true) : listTokens rt sts = [] := by
        rw [h.tail_eq_nil hResult, listTokens]
      have hNonempty := tokens_ne_nil hRuntime st
      have hBegins := (h.legible st List.mem_cons_self).begins hRuntime hResult
      obtain ⟨isOpen, hOpen, hReads⟩ := hHead d (by omega) _ (begins_list hRuntime h.tail) hResult
      refine ⟨() :: units, .cons (reads_blockStep (by simp [listTokens, hNonempty]) hBegins.semicolon hReads hOpen) ?_ hMore⟩
      have hLength := List.length_pos_of_ne_nil hNonempty
      simp only [listTokens, List.length_append]
      omega
  obtain ⟨units, hSteps⟩ := hSteps
  exact ⟨(), hSteps.reads.takes.skip⟩

/-! ### Each kind of statement -/

theorem takes_value (hRuntime : rt.IsPlain) {value : Expr} (h : value.Legible) {d : Nat}
    (hSize : 2 * TokenTree.listSize (value.tokens rt) + 2 ≤ d) (t : Tokens) :
    Takes ((Grammar.ofDepth d).expr true) (value.tokens rt ++ (op ";" ++ t)) (op ";" ++ t) :=
  ((h.isRead hRuntime).expr hSize (endsExpr_op ";" (by simp) t) rfl).takes

theorem isRead_letValue (hRuntime : rt.IsPlain) {isMut : Bool} {name : String} {value : Expr}
    (hName : IsName name) (h : value.Legible) : IsRead rt (.letValue isMut name value) := by
  intro d hSize t _ _
  simp only [tokens, TokenTree.listSize_append, TokenTree.listSize] at hSize
  obtain ⟨d, rfl⟩ := Nat.exists_eq_add_of_le' (show 1 ≤ d by omega)
  have hPattern : Takes (Grammar.ofDepth (d + 1)).pattern
      (((if isMut then [ident "mut"] else []) ++ [ident name]) ++
        (op "=" ++ (value.tokens rt ++ (op ";" ++ t))))
      (op "=" ++ (value.tokens rt ++ (op ";" ++ t))) := by
    rw [List.append_assoc]
    exact (reads_namePattern hName.plain (endsName_op "=" (by simp) _) isMut).takes
  have hLet := reads_letStatement hPattern (takes_value hRuntime h (by omega) t)
  refine ⟨false, by simp, ?_⟩
  simpa [tokens, ident, op] using hLet

theorem isRead_letPair (hRuntime : rt.IsPlain) {first second : String} {value : Expr}
    (hFirst : IsName first) (hSecond : IsName second) (h : value.Legible) :
    IsRead rt (.letPair first second value) := by
  intro d hSize t _ _
  simp only [tokens, TokenTree.listSize_append, TokenTree.listSize] at hSize
  obtain ⟨d, rfl⟩ := Nat.exists_eq_add_of_le' (show 2 ≤ d by omega)
  have hPattern : Takes (Grammar.ofDepth (d + 2)).pattern
      ([parens ([ident first] ++ op "," ++ [ident second])] ++
        (op "=" ++ (value.tokens rt ++ (op ";" ++ t))))
      (op "=" ++ (value.tokens rt ++ (op ";" ++ t))) :=
    reads_pairPattern hFirst.plain hSecond.plain _
  have hLet := reads_letStatement hPattern (takes_value hRuntime h (by omega) t)
  refine ⟨false, by simp, ?_⟩
  simpa [tokens, ident, op] using hLet

theorem isRead_assign (hRuntime : rt.IsPlain) {name : String} {value : Expr} (hName : IsName name)
    (h : value.Legible) : IsRead rt (.assign name value) := by
  intro d hSize t _ _
  simp only [tokens, TokenTree.listSize_append, TokenTree.listSize, TokenTree.size, ident] at hSize
  obtain ⟨d, rfl⟩ := Nat.exists_eq_add_of_le' (show 3 ≤ d by omega)
  have hEnds := endsOperand_equals (value.tokens rt ++ (op ";" ++ t))
  have hValueEnds : EndsExpr (op ";" ++ t) := endsExpr_op ";" (by simp) t
  have hOperand : TakesValue ((Grammar.ofDepth (d + 2)).operand true)
      (pathStart false [name] ++ (op "=" ++ (value.tokens rt ++ (op ";" ++ t))))
      (op "=" ++ (value.tokens rt ++ (op ";" ++ t))) :=
    takesValue_path (.singleton hName) (.done hEnds) rfl
  have hValue : TakesValue ((Grammar.ofDepth (d + 1)).operand true)
      (value.tokens rt ++ (op ";" ++ t)) (op ";" ++ t) :=
    h.isRead hRuntime d (by omega) true _ _ (.done hValueEnds.toEndsOperand) (fun _ => hValueEnds) rfl
  have hBegins := (Expr.Legible.var hName).beginsExpression hRuntime rfl hEnds.toEndsPath
  have hWhole : TakesValue (Grammar.ofDepth (d + 3)).statementExpr
      (pathStart false [name] ++ (op "=" ++ (value.tokens rt ++ (op ";" ++ t)))) (op ";" ++ t) :=
    takesValue_statementExprStep hBegins hOperand fun kind hKind =>
      takesValue_assignment hKind hValue hValueEnds
  refine ⟨false, by simp, ?_⟩
  rw [tokens, List.append_assoc, List.append_assoc, List.append_assoc]
  exact reads_expressionStatement hBegins hWhole

theorem isRead_run (hRuntime : rt.IsPlain) {e : Expr} (h : e.Legible)
    (hOpens : e.opensStatement = true) : IsRead rt (.run e) := by
  intro d hSize t _ _
  simp only [tokens, TokenTree.listSize_append] at hSize
  have hEnds : EndsExpr (op ";" ++ t) := endsExpr_op ";" (by simp) t
  refine ⟨false, by simp, ?_⟩
  rw [tokens, List.append_assoc]
  exact reads_expressionStatement (h.beginsExpression hRuntime hOpens hEnds.toEndsPath)
    (h.takesStatementExpr hRuntime hOpens (by omega) hEnds rfl)

theorem isRead_result (hRuntime : rt.IsPlain) {e : Expr} (h : e.Legible)
    (hOpens : e.opensStatement = true) : IsRead rt (.result e) := by
  intro d hSize t _ hResult
  simp only [tokens] at hSize
  obtain rfl := hResult rfl
  obtain ⟨isOpen, hReads⟩ := takes_resultStatement (g := Grammar.ofDepth d)
    (h.beginsExpression hRuntime hOpens endsExpr_nil.toEndsPath)
    (h.takesStatementExpr hRuntime hOpens (by omega) endsExpr_nil rfl)
  exact ⟨isOpen, fun _ => rfl, hReads⟩

theorem isRead_built {fields : List String} (hFields : ∀ f ∈ fields, IsName f) :
    IsRead rt (.result (.construct fields)) := by
  intro d hSize t _ hResult
  obtain rfl := hResult rfl
  obtain ⟨d, rfl⟩ := Nat.exists_eq_add_of_le' (show 3 ≤ d by omega)
  have hSelf : IsNamePath false ["Self"] :=
    ⟨by simp, List.forall_mem_singleton.mpr ⟨by decide, .inr (by decide)⟩, .inr (by decide)⟩
  have hBegins : BeginsExpression ((Expr.construct fields).tokens rt ++ []) :=
    beginsExpression_path hSelf (by decide) (Expr.endsPath_group _ _)
  have hOperand : TakesValue ((Grammar.ofDepth (d + 2)).operand true)
      ((Expr.construct fields).tokens rt ++ []) [] := takesValue_construct hFields
  obtain ⟨isOpen, hReads⟩ := takes_resultStatement (g := Grammar.ofDepth (d + 3)) hBegins
    (takesValue_statementExprStep hBegins hOperand fun kind hKind =>
      takesValue_operatorsStep hKind endsExpr_nil true .lowest)
  exact ⟨isOpen, fun _ => rfl, hReads⟩

theorem isRead_forEach (hRuntime : rt.IsPlain) {bound : String} {source : Expr}
    {body : List Statement} (hBound : IsName bound) (h : source.Legible) (hBody : IsBlock body)
    (hRead : ∀ st ∈ body, IsRead rt st) : IsRead rt (.forEach bound source body) := by
  intro d hSize t hBegins _
  simp only [tokens, TokenTree.listSize_append, TokenTree.listSize, TokenTree.size, braces] at hSize
  obtain ⟨d, rfl⟩ := Nat.exists_eq_add_of_le' (show 2 ≤ d by omega)
  have hSource : Takes ((Grammar.ofDepth (d + 1)).expr false)
      (source.tokens rt ++ .group .brace (listTokens rt body) :: t)
      (.group .brace (listTokens rt body) :: t) :=
    ((h.isRead hRuntime).expr (by omega) (endsExpr_brace _ t) rfl).takes
  have hFor := reads_for hBound.plain hSource (begins_list hRuntime hBody)
    (takes_statements hRuntime hBody hRead (by omega))
  have hStatement : Reads (statement (Grammar.ofDepth (d + 2)))
      (ident "for" :: ident bound :: ident "in" ::
        (source.tokens rt ++ .group .brace (listTokens rt body) :: t)) false t :=
    reads_blockStatement (by simp) hFor hBegins rfl
  refine ⟨false, by simp, ?_⟩
  simpa [tokens, braces] using hStatement

theorem isRead_ifSome (hRuntime : rt.IsPlain) {bound : String} {source : Expr}
    {body : List Statement} (hBound : IsName bound) (h : source.Legible) (hBody : IsBlock body)
    (hRead : ∀ st ∈ body, IsRead rt st) : IsRead rt (.ifSome bound source body) := by
  intro d hSize t hBegins _
  simp only [tokens, someTokens, TokenTree.listSize_append, TokenTree.listSize, TokenTree.size,
    braces, ident] at hSize
  obtain ⟨d, rfl⟩ := Nat.exists_eq_add_of_le' (show 5 ≤ d by omega)
  have hEnds := endsExpr_brace (listTokens rt body) t
  have hSource : TakesValue ((Grammar.ofDepth (d + 2)).operand false)
      (source.tokens rt ++ .group .brace (listTokens rt body) :: t)
      (.group .brace (listTokens rt body) :: t) :=
    h.isRead hRuntime (d + 1) (by omega) false _ _ (.done hEnds.toEndsOperand) (fun _ => hEnds) rfl
  have hLet : Takes ((Grammar.ofDepth (d + 4)).expr false)
      (ident "let" :: (someTokens bound ++ (op "=" ++
        (source.tokens rt ++ .group .brace (listTokens rt body) :: t))))
      (.group .brace (listTokens rt body) :: t) := takes_letSome hBound.plain hSource hEnds
  have hCondition : Takes ((Grammar.ofDepth (d + 4)).expr false)
      ((ident "let" :: (someTokens bound ++ (op "=" ++ source.tokens rt))) ++
        .group .brace (listTokens rt body) :: t) (.group .brace (listTokens rt body) :: t) := by
    simpa using hLet
  have hIf := reads_if hCondition (begins_list hRuntime hBody)
    (takes_statements hRuntime hBody hRead (by omega)) hBegins
  have hStatement : Reads (statement (Grammar.ofDepth (d + 5)))
      (ident "if" :: ((ident "let" :: (someTokens bound ++ (op "=" ++ source.tokens rt))) ++
        .group .brace (listTokens rt body) :: t)) false t :=
    reads_blockStatement (by simp) hIf hBegins rfl
  refine ⟨false, by simp, ?_⟩
  simpa [tokens, braces] using hStatement

theorem Legible.isRead (hRuntime : rt.IsPlain) {st : Statement} (h : st.Legible) : IsRead rt st := by
  have hBlock {body : List Statement} (hBody : ∀ st ∈ body, st.Legible)
      (running : ∀ st ∈ body, st.isResult = false) : IsBlock body :=
    ⟨hBody, fun st hst => running st (List.mem_of_mem_dropLast hst)⟩
  induction h with
  | letValue hName h => exact isRead_letValue hRuntime hName h
  | letPair hFirst hSecond h => exact isRead_letPair hRuntime hFirst hSecond h
  | assign hName h => exact isRead_assign hRuntime hName h
  | forEach hBound h hBody running ih =>
    exact isRead_forEach hRuntime hBound h (hBlock hBody running) ih
  | ifSome hBound h hBody running ih =>
    exact isRead_ifSome hRuntime hBound h (hBlock hBody running) ih
  | run h hOpens => exact isRead_run hRuntime h hOpens
  | result h hOpens => exact isRead_result hRuntime h hOpens
  | built h => exact isRead_built h

end Statement

/-- The statements of a block are read to its end. -/
theorem IsBlock.reads (hRuntime : rt.IsPlain) {sts : List Statement} (h : IsBlock sts) {d : Nat}
    (hSize : 2 * TokenTree.listSize (Statement.listTokens rt sts) + 5 ≤ d) (t : Tokens) :
    Reads (block (Grammar.ofDepth d)) (.group .brace (Statement.listTokens rt sts) :: t) () t := by
  obtain ⟨d, rfl⟩ := Nat.exists_eq_add_of_le' (show 1 ≤ d by omega)
  exact takes_block (Statement.begins_list hRuntime h) (Statement.takes_statements hRuntime h
    (fun st hst => (h.legible st hst).isRead hRuntime) (by omega)) t

end Code
end TraitClient
