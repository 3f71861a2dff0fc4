import TraitClient.Proofs.PatternReading

/-!
# Reading expressions

The tokens of a legible expression are read as an expression, whatever follows them that ends one.
What is applied to an operand is read step by step behind it, so that an operand is read together
with all of it.
-/
namespace TraitClient

open Code (IsName IsSegment)

namespace Source.Parser

variable {g : Grammar}

/-! ## Parsers of expressions in sequence -/

/-- The parser yields an expression that is no range. -/
def TakesValue (p : Parser ExprKind) (s t : Tokens) : Prop := ∃ kind, kind ≠ .range ∧ Reads p s kind t

theorem TakesValue.takes {p : Parser ExprKind} {s t : Tokens} (h : TakesValue p s t) :
    Takes p s t := by
  obtain ⟨kind, _, h⟩ := h
  exact ⟨kind, h⟩

theorem Reads.value {α : Type} {p : Parser α} {f : α → Parser ExprKind} {s t u : Tokens} {a : α}
    (hp : Reads p s a t) (hf : TakesValue (f a) t u) : TakesValue (p >>= f) s u := by
  obtain ⟨kind, hKind, hf⟩ := hf
  exact ⟨kind, hKind, hp.bind hf⟩

theorem Takes.value {α : Type} {p : Parser α} {f : α → Parser ExprKind} {s t u : Tokens}
    (hp : Takes p s t) (hf : ∀ a, TakesValue (f a) t u) : TakesValue (p >>= f) s u := by
  obtain ⟨a, hp⟩ := hp
  exact hp.value (hf a)

theorem takesValue_pure {kind : ExprKind} (h : kind ≠ .range) (s : Tokens) :
    TakesValue (pure kind) s s := ⟨kind, h, reads_pure kind s⟩

theorem TakesValue.bind {p : Parser ExprKind} {f : ExprKind → Parser ExprKind} {s t u : Tokens}
    (hp : TakesValue p s t) (hf : ∀ kind, kind ≠ .range → TakesValue (f kind) t u) :
    TakesValue (p >>= f) s u := by
  obtain ⟨kind, hKind, hp⟩ := hp
  exact hp.value (hf kind hKind)

/-! ## What is applied to an operand -/

/-- What may stand behind a path in an expression. -/
structure EndsPath (s : Tokens) : Prop where
  colons : peekOp "::" s = false
  angle : peekOp "<" s = false
  bang : peekOp "!" s = false
  hash : peekOp "#" s = false
  word : peekAnyIdent s = false

theorem EndsPath.noArguments {s : Tokens} (h : EndsPath s) : NoArguments s :=
  ⟨h.angle, fun hColons => absurd hColons (by simp [h.colons])⟩

theorem EndsPath.peekWord {s : Tokens} (h : EndsPath s) (word : String) : peekWord word s = false := by
  cases s with
  | nil => rfl
  | cons token s =>
    cases token with
    | ident name => exact absurd h.word (by simp [peekAnyIdent])
    | punct | literal | group => rfl

/-- What may stand behind an operand without being applied to it. -/
structure EndsOperand (s : Tokens) : Prop extends EndsPath s where
  parens : peekGroup .parenthesis s = false
  bracket : peekGroup .bracket s = false
  dot : peekOp "." s = false
  question : peekOp "?" s = false

/-- What may stand behind a whole expression. -/
structure EndsExpr (s : Tokens) : Prop extends EndsOperand s where
  operator : binaryOperator? s = none
  equals : peekOp "=" s = false
  range : peekOp ".." s = false

theorem endsOperand_equals (s : Tokens) : EndsOperand (Tokens.operator "=" ++ s) := by
  repeat' constructor

theorem endsExpr_nil : EndsExpr [] := by
  repeat' constructor

theorem endsExpr_op (text : String) (h : text ∈ [",", ";"]) (s : Tokens) :
    EndsExpr (Tokens.operator text ++ s) := by
  simp only [List.mem_cons, List.not_mem_nil, or_false] at h
  rcases h with rfl | rfl <;> repeat' constructor

theorem endsExpr_brace (body s : Tokens) : EndsExpr (.group .brace body :: s) := by
  repeat' constructor

/-- Calls, fields and `?`, one behind the other, up to the end of an operand. -/
inductive Trails (g : Grammar) : Tokens → Tokens → Prop
  | done {s : Tokens} (h : EndsOperand s) : Trails g s s
  | call {arguments s t : Tokens} (h : Takes (exprList g) arguments []) (more : Trails g s t) :
    Trails g (.group .parenthesis arguments :: s) t
  | await {s t : Tokens} (more : Trails g s t) :
    Trails g (Tokens.operator "." ++ .ident "await" :: s) t
  | field {name : String} {s t : Tokens} (hName : isPlainName name = true)
      (uncalled : peekGroup .parenthesis s = false) (more : Trails g s t) :
    Trails g (Tokens.operator "." ++ .ident name :: s) t
  | method {name : String} {arguments s t : Tokens} (hName : isPlainName name = true)
      (h : Takes (exprList g) arguments []) (more : Trails g s t) :
    Trails g (Tokens.operator "." ++ .ident name :: .group .parenthesis arguments :: s) t
  | propagate {s t : Tokens} (more : Trails g s t) : Trails g (Tokens.operator "?" ++ s) t

namespace Trails

variable {s t : Tokens}

theorem ends (h : Trails g s t) : EndsOperand t := by
  induction h with
  | done h => exact h
  | call _ _ ih | await _ ih | field _ _ _ ih | method _ _ _ ih | propagate _ ih => exact ih

theorem eq_of_endsOperand (h : Trails g s t) (hEnds : EndsOperand s) : t = s := by
  cases h with
  | done => rfl
  | call => exact absurd hEnds.parens (by simp [peekGroup])
  | await | field | method => exact absurd hEnds.dot (by simp [peekOp_operator])
  | propagate => exact absurd hEnds.question (by simp [peekOp_operator])

theorem endsPath (h : Trails g s t) : EndsPath s := by
  cases h with
  | done h => exact h.toEndsPath
  | call | await | field | method | propagate => constructor <;> rfl

theorem brace {allowStruct : Bool} (h : Trails g s t)
    (hEnd : (allowStruct && peekGroup .brace t) = false) :
    (allowStruct && peekGroup .brace s) = false := by
  cases h with
  | done h => exact hEnd
  | call | await | field | method | propagate => exact Bool.and_false allowStruct

/-- A name behind a dot is a method if arguments follow it. -/
theorem member {name : String} (hName : isPlainName name = true) (h : Trails g s t) :
    Trails g (Tokens.operator "." ++ .ident name :: s) t := by
  cases h with
  | done h => exact .field hName h.parens (.done h)
  | call h more => exact .method hName h more
  | await more => exact .field hName rfl (.await more)
  | field hField uncalled more => exact .field hName rfl (.field hField uncalled more)
  | method hMethod h more => exact .field hName rfl (.method hMethod h more)
  | propagate more => exact .field hName rfl (.propagate more)

theorem takesValue_dot {name : String} {kind : ExprKind} (hKind : kind ≠ .range) {fuel : Nat}
    (h : TakesValue (do
      if ← wordIf "await" then trailers.go g .other fuel
      else
        skip ident
        let s ← rest
        if peekOp "::" s then
          turbofish g
          parens (exprList g)
        else if peekGroup .parenthesis s then parens (exprList g)
        trailers.go g .other fuel) (.ident name :: s) t) :
    TakesValue (trailers.go g kind (fuel + 1)) (Tokens.operator "." ++ .ident name :: s) t := by
  have hDot : (peekOp "." (Tokens.operator "." ++ .ident name :: s) &&
      !peekOp ".." (Tokens.operator "." ++ .ident name :: s) && kind != .range) = true := by
    simpa using ⟨⟨rfl, rfl⟩, hKind⟩
  refine (reads_rest _).value ?_
  rw [show peekGroup .parenthesis (Tokens.operator "." ++ .ident name :: s) = false from rfl,
    if_neg Bool.false_ne_true, hDot, if_pos rfl]
  refine (reads_op "." _).value ((reads_rest _).value ?_)
  exact h

theorem takesValue (h : Trails g s t) {kind : ExprKind} (hKind : kind ≠ .range) :
    TakesValue (trailers g kind) s t := by
  have hOther : ExprKind.other ≠ .range := by decide
  -- By the trailers, with any fuel that exceeds the tokens that are left.
  have hFuel (fuel : Nat) (hEnough : s.length < fuel) (kind : ExprKind) (hKind : kind ≠ .range) :
      TakesValue (trailers.go g kind fuel) s t := by
    induction h generalizing fuel kind with
    | @done s h =>
      obtain ⟨fuel, rfl⟩ := Nat.exists_eq_add_one_of_ne_zero (Nat.ne_zero_of_lt hEnough)
      refine (reads_rest s).value ?_
      simp only [h.parens, h.dot, h.bracket, h.question, Bool.false_and, Bool.false_eq_true, if_false]
      exact takesValue_pure hKind s
    | call h more ih =>
      obtain ⟨fuel, rfl⟩ := Nat.exists_eq_add_one_of_ne_zero (Nat.ne_zero_of_lt hEnough)
      obtain ⟨_, h⟩ := h
      refine (reads_rest _).value ((reads_group .parenthesis h _).value ?_)
      exact ih fuel (by simpa using hEnough) _ hOther
    | await more ih =>
      obtain ⟨fuel, rfl⟩ := Nat.exists_eq_add_one_of_ne_zero (Nat.ne_zero_of_lt hEnough)
      refine takesValue_dot hKind ((reads_wordIf "await" _).value ?_)
      exact ih fuel (by simp at hEnough; omega) _ hOther
    | @field name s t hName uncalled more ih =>
      obtain ⟨fuel, rfl⟩ := Nat.exists_eq_add_one_of_ne_zero (Nat.ne_zero_of_lt hEnough)
      refine takesValue_dot hKind ((reads_wordIf_false
        (peekWord_of_isPlainName hName (by decide) s)).value ?_)
      refine (reads_ident hName s).takes.skip.value ((reads_rest s).value ?_)
      rw [more.endsPath.colons, if_neg Bool.false_ne_true, uncalled, if_neg Bool.false_ne_true]
      exact ih fuel (by simp at hEnough; omega) _ hOther
    | @method name arguments s t hName h more ih =>
      obtain ⟨fuel, rfl⟩ := Nat.exists_eq_add_one_of_ne_zero (Nat.ne_zero_of_lt hEnough)
      obtain ⟨_, h⟩ := h
      refine takesValue_dot hKind ((reads_wordIf_false
        (peekWord_of_isPlainName hName (by decide) _)).value ?_)
      refine (reads_ident hName _).takes.skip.value ((reads_rest _).value ?_)
      refine (reads_group .parenthesis h s).value ?_
      exact ih fuel (by simp at hEnough; omega) _ hOther
    | @propagate s t more ih =>
      obtain ⟨fuel, rfl⟩ := Nat.exists_eq_add_one_of_ne_zero (Nat.ne_zero_of_lt hEnough)
      have hQuestion : (peekOp "?" (Tokens.operator "?" ++ s) && kind != .range) = true := by
        simpa using ⟨rfl, hKind⟩
      have hOthers : peekGroup .parenthesis (Tokens.operator "?" ++ s) = false ∧
          peekOp "." (Tokens.operator "?" ++ s) = false ∧
          peekGroup .bracket (Tokens.operator "?" ++ s) = false := ⟨rfl, rfl, rfl⟩
      refine (reads_rest _).value ?_
      simp only [hOthers, hQuestion, Bool.false_and, Bool.false_eq_true, if_false, if_true]
      refine (reads_op "?" s).value ?_
      exact ih fuel (by simp at hEnough; omega) _ hOther
  obtain ⟨kind, hKind, w, h⟩ := hFuel (s.length + 1) (Nat.lt_succ_self _) kind hKind
  exact ⟨kind, hKind, w, h⟩

end Trails

/-! ## Atoms -/

/-- The tokens begin with neither an attribute nor a prefix operator. -/
structure BeginsAtom (s : Tokens) : Prop where
  hash : peekOp "#" s = false
  borrow : peekOp "&" s = false
  star : peekOp "*" s = false
  bang : peekOp "!" s = false
  minus : peekOp "-" s = false

theorem takesValue_operandStep {allowStruct : Bool} {s t u : Tokens} (hBegins : BeginsAtom s)
    (hAtom : TakesValue (atom g allowStruct) s t) (hTrails : Trails g t u) :
    TakesValue (operandStep g allowStruct) s u := by
  refine (reads_whileSees_nil hBegins.hash).value ((reads_rest s).value ?_)
  simp only [hBegins.borrow, hBegins.star, hBegins.bang, hBegins.minus, Bool.false_or,
    Bool.false_eq_true, if_false]
  refine hAtom.bind fun first hFirst => (hTrails.takesValue hFirst).bind fun kind hKind => ?_
  exact (reads_guard rfl u).value (takesValue_pure hKind u)

section Paths

variable {isGlobal : Bool} {names : List String} {t : Tokens}

/-- The names of a path that code can start with. -/
structure IsNamePath (isGlobal : Bool) (names : List String) : Prop where
  nonempty : names ≠ []
  segments : ∀ name ∈ names, IsSegment name
  head : isGlobal = true ∨ names.head? ≠ some "try"

namespace IsNamePath

theorem beginsPath (h : IsNamePath isGlobal names) (t : Tokens) :
    BeginsPath (pathStart isGlobal names ++ t) :=
  beginsPath_pathStart h.nonempty h.segments h.head t

theorem append (h : IsNamePath isGlobal names) {more : List String}
    (hMore : ∀ name ∈ more, IsSegment name) : IsNamePath isGlobal (names ++ more) where
  nonempty := by simp [h.nonempty]
  segments := List.forall_mem_append.mpr ⟨h.segments, hMore⟩
  head := by
    rw [List.head?_append_of_ne_nil _ h.nonempty]
    exact h.head

theorem singleton {name : String} (h : IsName name) : IsNamePath false [name] where
  nonempty := List.cons_ne_nil name []
  segments := List.forall_mem_singleton.mpr h.isSegment
  head := .inr (by simpa using ne_of_isPlainName h.plain (by decide))

end IsNamePath

theorem BeginsPath.notTry {s : Tokens} (h : BeginsPath s) : Source.peekWord "try" s = false := by
  cases h with
  | colons s => rfl
  | name h hTry s => simpa using hTry

theorem BeginsPath.beginsAtom {s : Tokens} (h : BeginsPath s) : BeginsAtom s := by
  constructor <;> exact h.peekOp (by decide)

/-- What follows the first name of a path is `::`, or what follows the path. -/
theorem peek2_pathStart {peek : Tokens → Bool} (hNonempty : names ≠ [])
    (hColons : ∀ s, peek (Tokens.operator "::" ++ s) = false) (hEnd : peek t = false)
    (word : String) :
    (peekWord word (pathStart isGlobal names ++ t) && peek2 peek (pathStart isGlobal names ++ t)) =
      false := by
  obtain ⟨first, rest, rfl⟩ := List.exists_cons_of_ne_nil hNonempty
  unfold pathStart
  cases isGlobal with
  | true => rfl
  | false =>
    rw [if_neg Bool.false_ne_true, List.nil_append, separated_eq, List.cons_append, peek2_ident]
    cases rest with
    | nil => simp [laterSegments, hEnd]
    | cons next rest => simp [laterSegments_cons, hColons]

theorem reads_exprPath (h : IsNamePath isGlobal names) (hColons : peekOp "::" t = false)
    (hAngle : peekOp "<" t = false) :
    ∃ path : AnyPath, path.qualified = false ∧ path.isModStyle = true ∧
      Reads (anyPath g true) (pathStart isGlobal names ++ t) path t := by
  obtain ⟨front, last, rfl⟩ := (List.eq_nil_or_concat' names).resolve_left h.nonempty
  have hLast : Reads (pathSegment g (innerBound g) true) (.ident last :: t) (.mk last .none) t :=
    reads_bareSegment (h.segments last (by simp))
      ⟨hAngle, fun hMore => absurd hMore (by simp [hColons])⟩
  refine ⟨⟨false, isGlobal, front.map bareSegment ++ [.mk last .none]⟩, rfl, ?_, ?_⟩
  · simp [AnyPath.isModStyle, bareSegment, TypeSegment.arguments]
  · refine (reads_sees _ _).bind ?_
    rw [(h.beginsPath t).peekOp (by decide)]
    exact reads_plainPath isGlobal h.segments hLast le_rfl hColons

theorem takesValue_pathAtom (h : IsNamePath isGlobal names) (hEnds : EndsPath t)
    {allowStruct : Bool} (hBrace : (allowStruct && peekGroup .brace t) = false) :
    TakesValue (atom g allowStruct) (pathStart isGlobal names ++ t) t := by
  have hBegins := h.beginsPath t
  have hWord (word : String) (hWord : word ∈ keywords ∧ word ∉ Code.pathWords) :
      peekWord word (pathStart isGlobal names ++ t) = false := hBegins.peekWord hWord
  have hBar : peekOp "|" (pathStart isGlobal names ++ t) = false := hBegins.peekOp (by decide)
  have hBuiltin : (peekWord "builtin" (pathStart isGlobal names ++ t) &&
      peek2 (peekOp "#") (pathStart isGlobal names ++ t)) = false :=
    peek2_pathStart h.nonempty (fun _ => rfl) hEnds.hash "builtin"
  obtain ⟨path, hPlain, -, hPath⟩ := reads_exprPath (g := g) h hEnds.colons hEnds.angle
  refine (reads_rest _).value ?_
  simp only [hBegins.peekLit, hWord "async" (by decide), hBegins.notTry, hBar,
    hWord "move" (by decide), hWord "for" (by decide), hWord "const" (by decide),
    hWord "static" (by decide), hBuiltin, hBegins.startsPath, Bool.false_and, Bool.false_or,
    Bool.true_or, Bool.false_eq_true, if_false, if_true]
  refine hPath.value ((reads_rest t).value ?_)
  rw [hPlain, hEnds.bang, hBrace]
  exact takesValue_pure (by decide) t

theorem takesValue_path (h : IsNamePath isGlobal names) {u : Tokens} (hTrails : Trails g t u)
    {allowStruct : Bool} (hBrace : (allowStruct && peekGroup .brace u) = false) :
    TakesValue (operandStep g allowStruct) (pathStart isGlobal names ++ t) u :=
  takesValue_operandStep (h.beginsPath t).beginsAtom
    (takesValue_pathAtom h hTrails.endsPath (hTrails.brace hBrace)) hTrails

end Paths

theorem takesValue_literalAtom (allowStruct : Bool) (text : String) (t : Tokens) :
    TakesValue (atom g allowStruct) (.literal text :: t) t :=
  (reads_rest _).value ((reads_lit text t).value (takesValue_pure (by decide) t))

theorem takesValue_parenAtom {body : Tokens} (h : Takes (exprList g) body []) (allowStruct : Bool)
    (t : Tokens) : TakesValue (atom g allowStruct) (.group .parenthesis body :: t) t := by
  obtain ⟨_, h⟩ := h
  exact (reads_rest _).value
    ((reads_group .parenthesis h t).value (takesValue_pure (by decide) t))

theorem takesValue_arrayAtom {body : Tokens} (hNonempty : body ≠ []) (h : Takes (g.expr true) body [])
    (allowStruct : Bool) (t : Tokens) :
    TakesValue (atom g allowStruct) (.group .bracket body :: t) t := by
  have hElement : Reads (do
      if ← sees peekEnd then pure () else
      skip (g.expr true)
      if ← sees (peekOp ";") then
        op ";"
        skip (g.expr true)
      else if ← sees peekEnd then pure ()
      else
        comma
        exprList g) body () [] := by
    refine (reads_sees _ body).bind ?_
    rw [show peekEnd body = false by simpa [peekEnd] using hNonempty]
    refine h.skip.bind ((reads_sees _ []).bind ((reads_sees _ []).bind ?_))
    exact reads_pure () []
  exact (reads_rest _).value
    ((reads_group .bracket hElement t).value (takesValue_pure (by decide) t))

theorem takesValue_formatAtom (allowStruct : Bool) (body t : Tokens) :
    TakesValue (atom g allowStruct)
      (.ident "format" :: (Tokens.operator "!" ++ .group .parenthesis body :: t)) t := by
  have hFormat : IsNamePath false ["format"] := .singleton ⟨by decide, by decide⟩
  obtain ⟨path, hPlain, hNames, hPath⟩ := reads_exprPath (g := g)
    (t := Tokens.operator "!" ++ .group .parenthesis body :: t) hFormat rfl rfl
  have hMacro : (!path.qualified && peekOp "!" (Tokens.operator "!" ++ .group .parenthesis body :: t) &&
      !peekOp "!=" (Tokens.operator "!" ++ .group .parenthesis body :: t) && path.isModStyle) =
      true := by
    rw [hPlain, hNames]
    rfl
  refine (reads_rest _).value (hPath.value ((reads_rest _).value ?_))
  rw [hMacro, if_pos rfl]
  refine (reads_op "!" _).value (Reads.value ((reads_anyGroup .parenthesis body t).map (·.1)) ?_)
  exact takesValue_pure (by simp) t

theorem takesValue_closureAtom {parameter : String} (hParameter : isPlainName parameter = true)
    {allowStruct : Bool} {s t : Tokens} (hArrow : peekOp "->" s = false)
    (h : Takes ((Grammar.step g).expr allowStruct) s t) :
    TakesValue (atom (Grammar.step g) allowStruct)
      (Tokens.operator "|" ++ .ident parameter :: (Tokens.operator "|" ++ s)) t := by
  have hPattern : Reads (Grammar.step g).pattern (.ident parameter :: (Tokens.operator "|" ++ s))
      (.plainName parameter) (Tokens.operator "|" ++ s) :=
    reads_namePattern hParameter (endsName_op "|" (by simp) s) false
  have hName : Takes (closureParameter (Grammar.step g))
      (.ident parameter :: (Tokens.operator "|" ++ s)) (Tokens.operator "|" ++ s) := by
    refine (reads_whileSees_nil rfl).takes.skip.then (hPattern.takes.skip.then ?_)
    exact (reads_opIf_false rfl).then (takes_pure () _)
  obtain ⟨_, hName⟩ := hName
  have hParameters : Separates comma (peekOp "|") (closureParameter (Grammar.step g))
      (.ident parameter :: (Tokens.operator "|" ++ s)) [_] (Tokens.operator "|" ++ s) :=
    .last rfl hName (peekOp_operator "|" s)
  refine (reads_rest _).value ((reads_boundLifetimes rfl).takes.skip.value ?_)
  refine (reads_wordIf_false rfl).takes.skip.value ((reads_wordIf_false rfl).takes.skip.value ?_)
  refine (reads_wordIf_false rfl).takes.skip.value ((reads_wordIf_false rfl).takes.skip.value ?_)
  refine (reads_op "|" _).value (hParameters.reads.takes.skip.value ((reads_op "|" s).value ?_))
  refine (reads_sees _ s).value ?_
  rw [hArrow, if_neg Bool.false_ne_true]
  exact h.skip.value (takesValue_pure (by decide) t)

/-! ## Whole expressions -/

/-- How the tokens of an operand begin, and whether they begin with a path. -/
inductive Opening : Bool → Tokens → Prop
  | path {isGlobal : Bool} {names : List String} {t : Tokens} (h : IsNamePath isGlobal names)
      (hCrate : names ≠ ["crate"]) (hEnds : EndsPath t) :
    Opening true (pathStart isGlobal names ++ t)
  | literal (text : String) (t : Tokens) : Opening false (.literal text :: t)
  | group {d : Delimiter} (hDelimiter : d ≠ .brace) (body t : Tokens) :
    Opening false (.group d body :: t)
  | format (body t : Tokens) : Opening false (.ident "format" :: (Tokens.operator "!" ++ .group .parenthesis body :: t))

namespace Opening

variable {byPath : Bool} {s : Tokens}

theorem peekOp (h : Opening byPath s) {text : String}
    (hText : text.toList.head? ≠ some ':' ∧ text.toList ≠ []) : peekOp text s = false := by
  cases h with
  | path h _ _ => exact (h.beginsPath _).peekOp hText
  | literal | group | format => simp [Source.peekOp, hText.2]

theorem beginsAtom (h : Opening byPath s) : BeginsAtom s := by
  constructor <;> exact h.peekOp (by decide)

theorem notMut (h : Opening byPath s) : peekWord "mut" s = false := by
  cases h with
  | path h _ _ => exact (h.beginsPath _).peekWord (by decide)
  | literal | group | format => rfl

theorem notRaw (h : Opening byPath s) :
    (peekWord "raw" s && (peek2 (peekWord "mut") s || peek2 (peekWord "const") s)) = false := by
  cases h with
  | path h _ hEnds =>
    rw [Bool.and_or_distrib_left, peek2_pathStart h.nonempty (fun _ => rfl) (hEnds.peekWord "mut"),
      peek2_pathStart h.nonempty (fun _ => rfl) (hEnds.peekWord "const"), Bool.or_false]
  | literal | group | format => rfl

end Opening

theorem takesValue_borrow {allowStruct : Bool} {byPath : Bool} {s t : Tokens}
    (hOpening : Opening byPath s) (h : TakesValue (g.operand allowStruct) s t) :
    TakesValue (operandStep g allowStruct) (Tokens.operator "&" ++ s) t := by
  refine (reads_whileSees_nil rfl).value ((reads_rest _).value ?_)
  rw [peekOp_operator, if_pos rfl]
  refine (reads_op "&" s).value ((reads_rest s).value ?_)
  rw [hOpening.notRaw, if_neg Bool.false_ne_true]
  refine (reads_wordIf_false hOpening.notMut).takes.skip.value ?_
  exact h.takes.skip.value (takesValue_pure (by decide) t)

theorem takesValue_operatorsStep {kind : ExprKind} (hKind : kind ≠ .range) {s : Tokens}
    (hEnds : EndsExpr s) (allowStruct : Bool) (base : Precedence) :
    TakesValue (operatorsStep g allowStruct base kind) s s := by
  refine (reads_rest s).value ((reads_rest s).value ?_)
  rw [if_neg (by simpa using hKind), hEnds.operator]
  simp only [hEnds.equals, hEnds.range, hEnds.peekWord, Bool.false_and, Bool.and_false, Bool.false_eq_true,
    if_false]
  exact takesValue_pure hKind s

end Source.Parser

namespace Source

/-- A path of names alone, as it is written in code. -/
structure PathExpr.IsPlain (p : PathExpr) : Prop where
  tokens : p.tokens = Parser.pathStart p.leadingColon (p.segments.map (·.name))
  names : Parser.IsNamePath p.leadingColon (p.segments.map (·.name))

end Source

namespace Code

open Source Source.Parser

theorem pathStart_append {isGlobal : Bool} {names : List String} (hNonempty : names ≠ [])
    (more : List String) :
    pathStart isGlobal (names ++ more) = pathStart isGlobal names ++ laterSegments more := by
  obtain ⟨first, rest, rfl⟩ := List.exists_cons_of_ne_nil hNonempty
  unfold pathStart
  rw [List.cons_append, separated_eq, separated_eq, List.append_assoc, List.cons_append]
  simp [laterSegments]

theorem pathStart_ne_nil {isGlobal : Bool} {names : List String} (hNonempty : names ≠ []) :
    pathStart isGlobal names ≠ [] := by
  obtain ⟨first, rest, rfl⟩ := List.exists_cons_of_ne_nil hNonempty
  rw [pathStart, separated_eq]
  simp

theorem runtimeTokens_eq {rt : PathExpr} (hRuntime : rt.IsPlain) (segments : List String) :
    runtimeTokens rt segments =
      pathStart rt.leadingColon (rt.segments.map (·.name) ++ segments) := by
  rw [pathStart_append hRuntime.names.nonempty, runtimeTokens, hRuntime.tokens]
  rfl

namespace Expr

variable {rt : PathExpr}

theorem listTokens_eq (es : List Expr) :
    listTokens rt es = commaSeparated (es.map (·.tokens rt)) := by
  induction es with
  | nil => rfl
  | cons e es ih =>
    cases es with
    | nil => rfl
    | cons next es =>
      rw [listTokens, ih]
      · rfl
      · simp

theorem isNamePath_self : IsNamePath false ["self"] :=
  ⟨by simp, List.forall_mem_singleton.mpr ⟨by decide, .inr (by decide)⟩, .inr (by decide)⟩

theorem isNamePath_associated {type name : String} (hType : IsName type) (hName : IsName name) :
    IsNamePath false [type, name] :=
  (IsNamePath.singleton hType).append (List.forall_mem_singleton.mpr hName.isSegment)

theorem isNamePath_runtime (hRuntime : rt.IsPlain) {segments : List String}
    (h : ∀ s ∈ segments, IsName s) :
    IsNamePath rt.leadingColon (rt.segments.map (·.name) ++ segments) :=
  hRuntime.names.append fun s hs => (h s hs).isSegment

theorem endsPath_op (text : String) (h : text ∈ [".", "?"]) (s : Tokens) :
    EndsPath (Tokens.operator text ++ s) := by
  simp only [List.mem_cons, List.not_mem_nil, or_false] at h
  rcases h with rfl | rfl <;> constructor <;> rfl

theorem endsPath_group {d : Delimiter} (body s : Tokens) : EndsPath (.group d body :: s) := by
  constructor <;> rfl

theorem Legible.opening (hRuntime : rt.IsPlain) {e : Expr} (h : e.Legible)
    (hOperand : e.isOperand = true) {t : Tokens} (hEnds : EndsPath t) :
    Opening e.opensStatement (e.tokens rt ++ t) := by
  induction h generalizing t with
  | var h =>
    exact .path (.singleton h) (by simpa using ne_of_isPlainName h.plain (by decide)) hEnds
  | self => exact .path isNamePath_self (by decide) hEnds
  | string s => exact .literal _ t
  | unit => exact .group (by decide) [] t
  | @runtime segments hNonempty h =>
    rw [tokens, runtimeTokens_eq hRuntime]
    refine .path (isNamePath_runtime hRuntime h) ?_ hEnds
    intro hCrate
    have hLength := congrArg List.length hCrate
    have hFront := List.length_pos_of_ne_nil hRuntime.names.nonempty
    have hBack := List.length_pos_of_ne_nil hNonempty
    simp only [List.length_append, List.length_singleton] at hLength
    omega
  | associated hType hName => exact .path (isNamePath_associated hType hName) (by simp) hEnds
  | field _ hTarget _ ih =>
    rw [tokens, List.append_assoc, List.append_assoc]
    exact ih hTarget (endsPath_op "." (by simp) _)
  | pair => exact .group (by decide) _ t
  | singleton => exact .group (by decide) _ t
  | borrow | closure => cases hOperand
  | call _ hFunction _ ih =>
    rw [tokens, List.append_assoc]
    exact ih hFunction (endsPath_group _ t)
  | method _ hReceiver _ _ ih =>
    rw [tokens, List.append_assoc, List.append_assoc]
    exact ih hReceiver (endsPath_op "." (by simp) _)
  | await _ hTarget ih =>
    rw [tokens, List.append_assoc, List.append_assoc]
    exact ih hTarget (endsPath_op "." (by simp) _)
  | propagate _ hTarget ih =>
    rw [tokens, List.append_assoc]
    exact ih hTarget (endsPath_op "?" (by simp) t)
  | format => exact .format _ t

theorem tokens_ne_nil (hRuntime : rt.IsPlain) (e : Expr) : e.tokens rt ≠ [] := by
  cases e with
  | runtime segments =>
    rw [tokens, runtimeTokens_eq hRuntime]
    exact pathStart_ne_nil (by simp [hRuntime.names.nonempty])
  | _ => simp [tokens, op, Tokens.operator, Tokens.ofOperatorChars]

/-- The tokens are read as an expression at any depth that is enough for them, together with what
is applied to them. -/
def IsRead (rt : PathExpr) (e : Expr) : Prop :=
  ∀ d, 2 * TokenTree.listSize (e.tokens rt) ≤ d → ∀ (allowStruct : Bool) (t u : Tokens),
    Trails (Grammar.ofDepth d) t u → (e.isOperand = false → EndsExpr t) →
    (allowStruct && peekGroup .brace u) = false →
    TakesValue ((Grammar.ofDepth (d + 1)).operand allowStruct) (e.tokens rt ++ t) u

theorem IsRead.expr {e : Expr} (h : IsRead rt e) {d : Nat}
    (hSize : 2 * TokenTree.listSize (e.tokens rt) + 2 ≤ d) {allowStruct : Bool} {t : Tokens}
    (hEnds : EndsExpr t) (hBrace : (allowStruct && peekGroup .brace t) = false) :
    TakesValue ((Grammar.ofDepth d).expr allowStruct) (e.tokens rt ++ t) t := by
  obtain ⟨d, rfl⟩ := Nat.exists_eq_add_of_le' (Nat.le_of_add_left_le hSize)
  have hOperand := h d (by omega) allowStruct t t (.done hEnds.toEndsOperand) (fun _ => hEnds) hBrace
  exact hOperand.bind fun kind hKind => takesValue_operatorsStep hKind hEnds allowStruct .lowest

theorem IsRead.arguments (hRuntime : rt.IsPlain) {es : List Expr} (h : ∀ e ∈ es, IsRead rt e)
    {d : Nat} (hSize : 2 * TokenTree.listSize (listTokens rt es) + 2 ≤ d) :
    Takes (exprList (Grammar.ofDepth d)) (listTokens rt es) [] := by
  rw [listTokens_eq] at hSize ⊢
  refine ⟨(), (takes_commaList (fun e _ => tokens_ne_nil hRuntime e) fun e he t hEnds => ?_).skip⟩
  have hLess := listSize_le_separated (op ",") (List.mem_map_of_mem (f := (·.tokens rt)) he)
  have hExpr : EndsExpr t ∧ (true && peekGroup .brace t) = false := by
    rcases hEnds with rfl | ⟨t, rfl⟩
    · exact ⟨endsExpr_nil, rfl⟩
    · exact ⟨endsExpr_op "," (by simp) t, rfl⟩
  refine ((h e he).expr ?_ hExpr.1 hExpr.2).takes
  rw [commaSeparated] at hSize
  omega

namespace IsRead

variable {e : Expr}

theorem path {isGlobal : Bool} {names : List String} (h : IsNamePath isGlobal names)
    (hTokens : e.tokens rt = pathStart isGlobal names) : IsRead rt e := by
  intro d _ allowStruct t u hTrails _ hBrace
  rw [hTokens]
  exact takesValue_path h hTrails hBrace

theorem atom (hBegins : ∀ t, BeginsAtom (e.tokens rt ++ t))
    (h : ∀ d, 2 * TokenTree.listSize (e.tokens rt) ≤ d → ∀ allowStruct t,
      TakesValue (Parser.atom (Grammar.ofDepth d) allowStruct) (e.tokens rt ++ t) t) :
    IsRead rt e := fun d hSize allowStruct t _ hTrails _ _ =>
  takesValue_operandStep (hBegins t) (h d hSize allowStruct t) hTrails

/-- An operand can be followed by anything that is applied to it. -/
theorem applied {target : Expr} {more : Tokens} (h : IsRead rt target)
    (hTarget : target.isOperand = true) (hTokens : e.tokens rt = target.tokens rt ++ more)
    (hMore : ∀ d, 2 * TokenTree.listSize more ≤ d → ∀ t u, Trails (Grammar.ofDepth d) t u →
      Trails (Grammar.ofDepth d) (more ++ t) u) : IsRead rt e := by
  intro d hSize allowStruct t u hTrails _ hBrace
  rw [hTokens, TokenTree.listSize_append] at hSize
  rw [hTokens, List.append_assoc]
  exact h d (by omega) allowStruct _ u (hMore d (by omega) t u hTrails)
    (fun hNot => absurd hTarget (by simp [hNot])) hBrace

theorem inParens (hRuntime : rt.IsPlain) (es : List Expr) (h : ∀ e ∈ es, IsRead rt e)
    (hTokens : e.tokens rt = [parens (listTokens rt es)]) : IsRead rt e := by
  refine atom (fun t => ?_) fun d hSize allowStruct t => ?_
  · rw [hTokens]
    exact (Opening.group (by decide) _ t).beginsAtom
  · rw [hTokens, parens, TokenTree.listSize, TokenTree.size] at hSize
    rw [hTokens]
    exact takesValue_parenAtom (IsRead.arguments hRuntime h (by omega)) _ t

theorem singleton (hRuntime : rt.IsPlain) {element : Expr} (h : IsRead rt element) :
    IsRead rt (.singleton element) := by
  refine atom (fun t => (Opening.group (by decide) _ t).beginsAtom) fun d hSize allowStruct t => ?_
  simp only [tokens, brackets, TokenTree.listSize, TokenTree.size] at hSize
  have hElement : TakesValue ((Grammar.ofDepth d).expr true) (element.tokens rt ++ []) [] :=
    h.expr (by omega) endsExpr_nil rfl
  rw [List.append_nil] at hElement
  exact takesValue_arrayAtom (tokens_ne_nil hRuntime element) hElement.takes _ t

theorem borrow (hRuntime : rt.IsPlain) {target : Expr} (hLegible : target.Legible)
    (hTarget : target.isOperand = true) (h : IsRead rt target) : IsRead rt (.borrow target) := by
  intro d hSize allowStruct t u hTrails hEnds hBrace
  have hEnds := hEnds rfl
  obtain rfl := hTrails.eq_of_endsOperand hEnds.toEndsOperand
  have hAmpersand : TokenTree.listSize (op "&") = 1 := rfl
  simp only [tokens, TokenTree.listSize_append, hAmpersand] at hSize
  obtain ⟨d, rfl⟩ := Nat.exists_eq_add_of_le' (show 1 ≤ d by omega)
  rw [tokens, List.append_assoc]
  refine takesValue_borrow (hLegible.opening hRuntime hTarget hEnds.toEndsPath) ?_
  exact h d (by omega) _ _ _ (.done hEnds.toEndsOperand)
    (fun hNot => absurd hTarget (by simp [hNot])) hBrace

theorem closure (hRuntime : rt.IsPlain) {parameter : String} (hParameter : IsName parameter)
    {body : Expr} (hLegible : body.Legible) (hBody : body.isOperand = true) (h : IsRead rt body) :
    IsRead rt (.closure parameter body) := by
  intro d hSize allowStruct t u hTrails hEnds hBrace
  have hEnds := hEnds rfl
  obtain rfl := hTrails.eq_of_endsOperand hEnds.toEndsOperand
  have hBar : TokenTree.listSize (op "|") = 1 := rfl
  simp only [tokens, TokenTree.listSize_append, TokenTree.listSize] at hSize
  obtain ⟨d, rfl⟩ := Nat.exists_eq_add_of_le' (show 1 ≤ d by omega)
  have hArrow : peekOp "->" (body.tokens rt ++ u) = false :=
    (hLegible.opening hRuntime hBody hEnds.toEndsPath).peekOp (by decide)
  have hExpr : TakesValue ((Grammar.ofDepth (d + 1)).expr allowStruct) (body.tokens rt ++ u) u :=
    h.expr (by omega) hEnds hBrace
  simp only [tokens, List.append_assoc, List.singleton_append]
  exact takesValue_operandStep (by constructor <;> rfl)
    (takesValue_closureAtom hParameter.plain hArrow hExpr.takes) hTrails

end IsRead

theorem Legible.isRead (hRuntime : rt.IsPlain) {e : Expr} (h : e.Legible) : IsRead rt e := by
  induction h with
  | var h => exact .path (.singleton h) rfl
  | self => exact .path isNamePath_self rfl
  | string s =>
    exact .atom (fun t => (Opening.literal _ t).beginsAtom) fun _ _ _ t =>
      takesValue_literalAtom _ _ t
  | unit => exact .inParens hRuntime [] (by simp) rfl
  | runtime _ h => exact .path (isNamePath_runtime hRuntime h) (runtimeTokens_eq hRuntime _)
  | associated hType hName => exact .path (isNamePath_associated hType hName) rfl
  | field _ hTarget hName ih =>
    exact ih.applied hTarget (List.append_assoc ..) fun _ _ _ _ hTrails =>
      .member hName.plain hTrails
  | @pair first second _ _ ihFirst ihSecond =>
    exact .inParens hRuntime [first, second] (by simpa using ⟨ihFirst, ihSecond⟩) rfl
  | singleton _ ih => exact .singleton hRuntime ih
  | borrow h hTarget ih => exact .borrow hRuntime h hTarget ih
  | call _ hFunction _ ih ihArguments =>
    refine ih.applied hFunction rfl fun d hSize t u hTrails => .call ?_ hTrails
    simp only [parens, TokenTree.listSize, TokenTree.size] at hSize
    exact IsRead.arguments hRuntime ihArguments (by omega)
  | method _ hReceiver hName _ ih ihArguments =>
    refine ih.applied hReceiver (List.append_assoc ..) fun d hSize t u hTrails =>
      .method hName.plain ?_ hTrails
    simp only [parens, TokenTree.listSize_append, TokenTree.listSize, TokenTree.size] at hSize
    exact IsRead.arguments hRuntime ihArguments (by omega)
  | await _ hTarget ih =>
    exact ih.applied hTarget (List.append_assoc ..) fun _ _ _ _ hTrails => .await hTrails
  | propagate _ hTarget ih => exact ih.applied hTarget rfl fun _ _ _ _ hTrails => .propagate hTrails
  | format =>
    exact .atom (fun t => (Opening.format _ t).beginsAtom) fun _ _ _ t =>
      takesValue_formatAtom _ _ t
  | closure hParameter h hBody ih => exact .closure hRuntime hParameter h hBody ih

end Expr
end Code
end TraitClient
