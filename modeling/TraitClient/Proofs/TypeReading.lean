import TraitClient.Proofs.ForeignPaths
import TraitClient.Proofs.Reading

/-!
# Reading types

The tokens of a legible type are read as the type that they spell, whatever follows them that is
no part of a type.
-/
namespace TraitClient.Source

open Code (IsName IsSegment IsPath pathSegments isGlobalPath takesArguments pathWords)

/-! ## Looking at tokens -/

section Peeks

variable {s : Tokens} {name : String}

@[simp] theorem peekChars_nil (cs : List Char) : peekChars cs [] = cs.isEmpty := by
  cases cs with
  | nil => rfl
  | cons c cs => cases cs <;> rfl

@[simp] theorem peekChars_ident (cs : List Char) : peekChars cs (.ident name :: s) = cs.isEmpty := by
  cases cs with
  | nil => rfl
  | cons c cs => cases cs <;> rfl

@[simp] theorem peekChars_literal (cs : List Char) (text : String) :
    peekChars cs (.literal text :: s) = cs.isEmpty := by
  cases cs with
  | nil => rfl
  | cons c cs => cases cs <;> rfl

@[simp] theorem peekChars_group (cs : List Char) (d : Delimiter) (body : Tokens) :
    peekChars cs (.group d body :: s) = cs.isEmpty := by
  cases cs with
  | nil => rfl
  | cons c cs => cases cs <;> rfl

end Peeks

/-- What may stand behind a type without being taken for a part of it. -/
structure EndsType (s : Tokens) : Prop where
  colons : peekOp "::" s = false
  angle : peekOp "<" s = false
  bang : peekOp "!" s = false
  plus : peekOp "+" s = false

theorem endsType_nil : EndsType [] := by constructor <;> simp [peekOp]

theorem endsType_ident (name : String) (s : Tokens) : EndsType (.ident name :: s) := by
  constructor <;> simp [peekOp]

theorem endsType_group (d : Delimiter) (body s : Tokens) : EndsType (.group d body :: s) := by
  constructor <;> simp [peekOp]

theorem endsType_op (text : String) (h : text ∈ [",", ">", "=", ";"]) (s : Tokens) :
    EndsType (Tokens.operator text ++ s) := by
  simp only [List.mem_cons, List.not_mem_nil, or_false] at h
  rcases h with rfl | rfl | rfl | rfl <;>
    constructor <;> simp [peekOp, peekChars, Tokens.operator, Tokens.ofOperatorChars]

/-! ## Segments -/

@[simp] theorem peekWord_ident (word name : String) (s : Tokens) :
    peekWord word (.ident name :: s) = (name == word) := rfl

theorem ne_of_isSegment {name word : String} (h : IsSegment name)
    (hWord : word ∈ keywords ∧ word ∉ pathWords) : name ≠ word := by
  rintro rfl
  rcases h.word with hPlain | hPath
  · simp [isPlainName, hWord.1] at hPlain
  · exact hWord.2 hPath

namespace Parser

variable {g : Grammar} {bound : Parser Unit} {inExpr : Bool}

def loneWords : List String := ["super", "self", "crate", "try"]

theorem isPlainName_of_segment {name : String} (h : IsSegment name) (hLone : name ∉ loneWords)
    (hSelf : name ≠ "Self") : isPlainName name = true := by
  refine h.word.resolve_right ?_
  intro hPath
  simp only [pathWords, loneWords, List.mem_cons, List.not_mem_nil, or_false] at hPath hLone
  tauto

structure NoArguments (s : Tokens) : Prop where
  angle : peekOp "<" s = false
  colons : peekOp "::" s = true → peek3 (peekOp "<") s = false

theorem reads_bareSegment {name : String} (h : IsSegment name) {s : Tokens} (hs : NoArguments s) :
    Reads (pathSegment g bound inExpr) (.ident name :: s) (.mk name .none) s := by
  unfold pathSegment
  refine (reads_rest _).bind ?_
  have hArguments : ((!inExpr && peekOp "<" s && !peekOp "<=" s) ||
      (peekOp "::" s && peek3 (peekOp "<") s)) = false := by
    rw [hs.angle, Bool.and_false, Bool.false_and, Bool.false_or]
    cases hColons : peekOp "::" s with
    | false => rfl
    | true => simp [hs.colons hColons]
  split
  · exact (reads_anyIdent name s).bind (reads_pure _ s)
  · rename_i hLone
    have hLone : name ∉ loneWords := by
      simpa [loneWords, or_assoc] using hLone
    have hRest : Reads (do
        let s ← rest
        if (!inExpr && peekOp "<" s && !peekOp "<=" s) || (peekOp "::" s && peek3 (peekOp "<") s) then
          let arguments ← angleArguments g bound
          pure (TypeSegment.mk name (.angle arguments))
        else pure (TypeSegment.mk name .none)) s (.mk name .none) s := by
      refine (reads_rest s).bind ?_
      rw [hArguments]
      exact reads_pure _ s
    split
    · exact (reads_anyIdent name s).bind hRest
    · rename_i hSelf
      exact (reads_ident (isPlainName_of_segment h hLone (by simpa using hSelf)) s).bind hRest

theorem reads_angleSegment {name : String} (h : IsSegment name) (hTakes : takesArguments name = true)
    {s t : Tokens} {arguments : List TypeArgument}
    (hArguments : Reads (angleArguments g bound) (Tokens.operator "<" ++ s) arguments t) :
    Reads (pathSegment g bound false) (.ident name :: (Tokens.operator "<" ++ s))
      (.mk name (.angle arguments)) t := by
  have hLone : name ∉ loneWords := by
    intro hMem
    simp only [loneWords, List.mem_cons, List.not_mem_nil, or_false] at hMem
    rcases hMem with rfl | rfl | rfl | rfl <;> exact absurd hTakes (by decide)
  unfold pathSegment
  refine (reads_rest _).bind ?_
  rw [if_neg (by simpa [loneWords, or_assoc] using hLone)]
  have hRest : Reads (do
      let s ← rest
      if (!false && peekOp "<" s && !peekOp "<=" s) || (peekOp "::" s && peek3 (peekOp "<") s) then
        let arguments ← angleArguments g bound
        pure (TypeSegment.mk name (.angle arguments))
      else pure (TypeSegment.mk name .none)) (Tokens.operator "<" ++ s)
      (.mk name (.angle arguments)) t := by
    refine (reads_rest _).bind ?_
    rw [if_pos (by simp [peekOp, peekChars, Tokens.operator, Tokens.ofOperatorChars])]
    exact hArguments.bind (reads_pure _ t)
  dsimp only
  split
  · exact (reads_anyIdent name _).bind hRest
  · rename_i hSelf
    exact (reads_ident (isPlainName_of_segment h hLone (by simpa using hSelf)) _).bind hRest

/-! ## Paths -/

/-- Segments behind the first one, each after its colons. -/
def laterSegments (names : List String) : Tokens :=
  names.flatMap fun name => Tokens.operator "::" ++ [.ident name]

theorem laterSegments_cons (name : String) (names : List String) (s : Tokens) :
    laterSegments (name :: names) ++ s =
      Tokens.operator "::" ++ .ident name :: (laterSegments names ++ s) := by
  simp [laterSegments]

theorem separated_eq (first : String) (names : List String) :
    Code.separated (Tokens.operator "::") ((first :: names).map fun name => [.ident name]) =
      .ident first :: laterSegments names := by
  induction names generalizing first with
  | nil => rfl
  | cons name names ih =>
    have hRest := ih name
    rw [List.map_cons] at hRest ⊢
    rw [List.map_cons, Code.separated, hRest]
    · rfl
    · simp

theorem peek3_colons {peek : Tokens → Bool} (s : Tokens) (h : peek s = false) :
    peek3 peek (Tokens.operator "::" ++ s) = false := by
  simp [peek3, peek2, Tokens.operator, Tokens.ofOperatorChars, skipOne, h]

theorem noArguments_colons (name : String) (s : Tokens) :
    NoArguments (Tokens.operator "::" ++ .ident name :: s) := by
  refine ⟨by simp [peekOp, peekChars, Tokens.operator, Tokens.ofOperatorChars], fun _ => ?_⟩
  exact peek3_colons _ (by simp [peekOp])

theorem noArguments_of_endsType {s : Tokens} (h : EndsType s) : NoArguments s :=
  ⟨h.angle, fun hColons => absurd hColons (by simp [h.colons])⟩

variable {front : List String} {last : String} {segment : TypeSegment} {s t : Tokens}

theorem repeats_moreSegments (hFront : ∀ name ∈ front, IsSegment name)
    (hLast : Reads (pathSegment g bound inExpr) (.ident last :: s) segment t)
    (hShorter : t.length ≤ s.length) (hEnds : peekOp "::" t = false) :
    Repeats (ifSees (fun s => peekOp "::" s && !peek3 (peekGroup .parenthesis) s) do
        op "::"
        pathSegment g bound inExpr)
      (laterSegments (front ++ [last]) ++ s) (front.map bareSegment ++ [segment]) t := by
  have hSees : ∀ name s, (peekOp "::" (Tokens.operator "::" ++ .ident name :: s) &&
      !peek3 (peekGroup .parenthesis) (Tokens.operator "::" ++ .ident name :: s)) = true := by
    intro name s
    rw [peek3_colons _ rfl, peekOp_operator]
    rfl
  induction front with
  | nil =>
    rw [List.nil_append, laterSegments_cons]
    refine .sees (hSees _ _) ((reads_op _ _).bind hLast) ?_ (.stops ?_)
    · simp [Tokens.operator, Tokens.ofOperatorChars, laterSegments]
      omega
    · simp [hEnds]
  | cons name front ih =>
    obtain ⟨hName, hRest⟩ := List.forall_mem_cons.mp hFront
    rw [List.cons_append, laterSegments_cons]
    refine .sees (hSees _ _) ((reads_op _ _).bind (reads_bareSegment hName ?_)) ?_ (ih hRest)
    · cases front with
      | nil =>
        rw [List.nil_append, laterSegments_cons]
        exact noArguments_colons _ _
      | cons next front =>
        rw [List.cons_append, laterSegments_cons]
        exact noArguments_colons _ _
    · simp [Tokens.operator, Tokens.ofOperatorChars]
      omega

/-- The tokens of a path without the arguments of its last segment. -/
def pathStart (isGlobal : Bool) (names : List String) : Tokens :=
  (if isGlobal then Tokens.operator "::" else []) ++
    Code.separated (Tokens.operator "::") (names.map fun name => [.ident name])

theorem reads_plainPath (isGlobal : Bool) (hFront : ∀ name ∈ front ++ [last], IsSegment name)
    (hLast : Reads (pathSegment g bound inExpr) (.ident last :: s) segment t)
    (hShorter : t.length ≤ s.length) (hEnds : peekOp "::" t = false) :
    Reads (plainPath g bound inExpr) (pathStart isGlobal (front ++ [last]) ++ s)
      ⟨false, isGlobal, front.map bareSegment ++ [segment]⟩ t := by
  have hNames : Reads (do
      let first ← pathSegment g bound inExpr
      let more ← moreSegments g bound inExpr
      pure (⟨false, isGlobal, first :: more⟩ : AnyPath))
      (Code.separated (Tokens.operator "::") ((front ++ [last]).map fun name => [.ident name]) ++ s)
      ⟨false, isGlobal, front.map bareSegment ++ [segment]⟩ t := by
    cases front with
    | nil =>
      refine hLast.bind (Reads.bind (a := []) ?_ (reads_pure _ t))
      exact reads_whileSees_nil (by simp [hEnds])
    | cons first rest =>
      obtain ⟨hFirst, hRest⟩ := List.forall_mem_cons.mp hFront
      rw [List.cons_append, separated_eq, List.cons_append]
      refine (reads_bareSegment hFirst ?_).bind (Reads.bind (repeats_moreSegments
        (fun name hName => hRest name (List.mem_append_left _ hName)) hLast hShorter hEnds).reads
        (reads_pure _ t))
      cases rest with
      | nil =>
        rw [List.nil_append, laterSegments_cons]
        exact noArguments_colons _ _
      | cons next rest =>
        rw [List.cons_append, laterSegments_cons]
        exact noArguments_colons _ _
  unfold plainPath pathStart
  cases isGlobal with
  | true =>
    rw [if_pos rfl, List.append_assoc]
    exact (reads_opIf "::" _).bind hNames
  | false =>
    refine (reads_opIf_false ?_).bind hNames
    obtain ⟨first, names, hNonempty⟩ := List.exists_cons_of_ne_nil
      (show front ++ [last] ≠ [] by simp)
    rw [hNonempty, separated_eq]
    simp [peekOp]

/-! ## Types of paths -/

inductive BeginsPath : Tokens → Prop
  | colons (s : Tokens) : BeginsPath (Tokens.operator "::" ++ s)
  | name {name : String} (h : IsSegment name) (hTry : name ≠ "try") (s : Tokens) :
    BeginsPath (.ident name :: s)

theorem beginsPath_pathStart {isGlobal : Bool} {names : List String} (hNonempty : names ≠ [])
    (h : ∀ name ∈ names, IsSegment name) (hHead : isGlobal = true ∨ names.head? ≠ some "try")
    (s : Tokens) : BeginsPath (pathStart isGlobal names ++ s) := by
  obtain ⟨first, rest, rfl⟩ := List.exists_cons_of_ne_nil hNonempty
  unfold pathStart
  cases isGlobal with
  | true =>
    rw [if_pos rfl, List.append_assoc]
    exact .colons _
  | false =>
    rw [if_neg Bool.false_ne_true, List.nil_append, separated_eq, List.cons_append]
    refine .name (h first List.mem_cons_self) ?_ _
    simpa using hHead

theorem BeginsPath.startsPath {s : Tokens} (h : BeginsPath s) : startsPath s = true := by
  cases h with
  | colons s => simp [Parser.startsPath, peekOp_operator]
  | name h hTry s =>
    rcases h.word with hPlain | hPath
    · simp [Parser.startsPath, peekIdent, hPlain]
    · simp only [pathWords, List.mem_cons, List.not_mem_nil, or_false] at hPath
      rcases hPath with rfl | rfl | rfl | rfl | rfl
      · rfl
      · rfl
      · rfl
      · rfl
      · exact absurd rfl hTry

theorem BeginsPath.peekWord {s : Tokens} (h : BeginsPath s) {word : String}
    (hWord : word ∈ keywords ∧ word ∉ pathWords) : peekWord word s = false := by
  cases h with
  | colons s => rfl
  | name h hTry s => simpa using ne_of_isSegment h hWord

theorem BeginsPath.peekGroup {s : Tokens} (h : BeginsPath s) (d : Delimiter) :
    peekGroup d s = false := by
  cases h <;> rfl

theorem BeginsPath.peekOp {s : Tokens} (h : BeginsPath s) {text : String}
    (hText : text.toList.head? ≠ some ':' ∧ text.toList ≠ []) : peekOp text s = false := by
  obtain ⟨hHead, hNonempty⟩ := hText
  obtain ⟨c, cs, hText⟩ := List.exists_cons_of_ne_nil hNonempty
  have hColon : c ≠ ':' := by simpa [hText] using hHead
  cases h with
  | colons s =>
    cases cs <;>
      simp [Source.peekOp, hText, peekChars, Tokens.operator, Tokens.ofOperatorChars, hColon]
  | name h hTry s => simp [Source.peekOp, hText]

theorem BeginsPath.peekLifetime {s : Tokens} (h : BeginsPath s) : peekLifetime s = false := by
  cases h <;> rfl

theorem BeginsPath.peekLit {s : Tokens} (h : BeginsPath s) : peekLit s = false := by
  cases h with
  | colons s => rfl
  | @name name h hTry s =>
    have hTrue := ne_of_isSegment h (show "true" ∈ keywords ∧ "true" ∉ pathWords by decide)
    have hFalse := ne_of_isSegment h (show "false" ∈ keywords ∧ "false" ∉ pathWords by decide)
    simp [Source.peekLit, hTrue, hFalse]

theorem reads_boundLifetimes {s : Tokens} (h : peekWord "for" s = false) :
    Reads (boundLifetimes g) s false s := by
  refine (reads_sees _ s).bind ?_
  rw [h]
  exact reads_pure false s

theorem reads_typeStep {allowPlus : Bool} {s t : Tokens} (shape : Tokens → TypeExpr)
    (h : Reads (typeShape g allowPlus) s shape t) :
    ∃ tokens, Reads (typeStep g allowPlus) s (shape tokens) t := by
  obtain ⟨tokens, hWritten⟩ := Takes.written h
  exact ⟨tokens, hWritten.bind (reads_pure _ t)⟩

theorem reads_typePath {s t : Tokens} {path : AnyPath} (hBegins : BeginsPath s)
    (hPath : Reads (plainPath g (innerBound g) false) s path t) (hPlain : path.qualified = false)
    (hEnds : EndsType t) (allowPlus : Bool) :
    ∃ tokens, Reads (typeStep g allowPlus) s (.path tokens path.leadingColon path.segments) t := by
  have hAny : Reads (anyPath g false) s path t := by
    refine (reads_sees _ s).bind ?_
    rw [hBegins.peekOp (by decide)]
    exact hPath
  refine reads_typeStep (fun tokens => .path tokens path.leadingColon path.segments) ?_
  refine (reads_boundLifetimes (hBegins.peekWord (by decide))).bind ?_
  refine (reads_rest s).bind ((reads_guard (by simp) s).bind ?_)
  rw [hBegins.peekGroup, hBegins.peekWord (by decide), hBegins.peekWord (by decide),
    hBegins.peekWord (by decide), hBegins.startsPath]
  refine hAny.bind ((reads_rest t).bind ?_)
  rw [hPlain, hEnds.bang, hEnds.plus]
  simpa using reads_pure _ t

/-! ## Arguments -/

/-- How the tokens of a type begin that generated code can spell. -/
inductive BeginsType : Tokens → Prop
  | path {s : Tokens} (h : BeginsPath s) : BeginsType s
  | unit (body s : Tokens) : BeginsType (.group .parenthesis body :: s)
  | slice (body s : Tokens) : BeginsType (.group .bracket body :: s)
  | reference (s : Tokens) : BeginsType (Tokens.operator "&" ++ s)

theorem BeginsType.peekLifetime {s : Tokens} (h : BeginsType s) : peekLifetime s = false := by
  cases h with
  | path h => exact h.peekLifetime
  | unit | slice | reference => rfl

theorem BeginsType.peekLit {s : Tokens} (h : BeginsType s) : peekLit s = false := by
  cases h with
  | path h => exact h.peekLit
  | unit | slice | reference => rfl

theorem BeginsType.peekBrace {s : Tokens} (h : BeginsType s) : peekGroup .brace s = false := by
  cases h with
  | path h => exact h.peekGroup .brace
  | unit | slice | reference => rfl

theorem BeginsType.peekClosing {s : Tokens} (h : BeginsType s) : peekOp ">" s = false := by
  cases h with
  | path h => exact h.peekOp (by decide)
  | unit | slice => simp [peekOp]
  | reference s => simp [peekOp, peekChars, Tokens.operator, Tokens.ofOperatorChars]

theorem reads_typeArgument (bound : Parser Unit) {s t : Tokens} {e : TypeExpr} {text : String}
    (hText : text ∈ [",", ">"]) (hBegins : BeginsType s)
    (h : Reads (g.type true) s e (Tokens.operator text ++ t)) :
    Reads (genericArgument g bound) s (false, .type e) (Tokens.operator text ++ t) := by
  have hMore : peekOp "=" (Tokens.operator text ++ t) = false ∧
      peekOp ":" (Tokens.operator text ++ t) = false := by
    simp only [List.mem_cons, List.not_mem_nil, or_false] at hText
    rcases hText with rfl | rfl <;> exact ⟨rfl, rfl⟩
  refine (reads_rest s).bind ?_
  rw [hBegins.peekLifetime, hBegins.peekLit, hBegins.peekBrace]
  refine h.bind ?_
  split
  · refine (reads_sees _ _).bind ?_
    rw [hMore.1]
    refine (reads_sees _ _).bind ?_
    rw [hMore.2]
    exact reads_pure _ _
  · exact reads_pure _ _

theorem BeginsPath.append {s : Tokens} (h : BeginsPath s) (t : Tokens) : BeginsPath (s ++ t) := by
  cases h with
  | colons s =>
    rw [List.append_assoc]
    exact .colons _
  | name h hTry s => exact .name h hTry _

theorem BeginsType.append {s : Tokens} (h : BeginsType s) (t : Tokens) : BeginsType (s ++ t) := by
  cases h with
  | path h => exact .path (h.append t)
  | unit body s => exact .unit body _
  | slice body s => exact .slice body _
  | reference s =>
    rw [List.append_assoc]
    exact .reference _

/-- The tokens are read as a type with a meaning wherever a type may end behind them. -/
structure ReadsType (g : Grammar) (allowPlus : Bool) (s : Tokens) (Means : TypeExpr → Prop) :
    Prop where
  begins : BeginsType s
  reads : ∀ t, EndsType t → ∃ e, Means e ∧ Reads (g.type allowPlus) (s ++ t) e t

theorem ReadsType.imp {g : Grammar} {allowPlus : Bool} {s : Tokens} {P Q : TypeExpr → Prop}
    (h : ReadsType g allowPlus s P) (hImp : ∀ e, P e → Q e) : ReadsType g allowPlus s Q := by
  refine ⟨h.begins, fun t hEnds => ?_⟩
  obtain ⟨e, hMeans, hReads⟩ := h.reads t hEnds
  exact ⟨e, hImp e hMeans, hReads⟩

theorem ReadsType.parse {s : Tokens} {Means : TypeExpr → Prop}
    (h : ReadsType (Grammar.ofTokens s) true s Means) :
    ∃ e, parseTypeTokens? s = some e ∧ Means e := by
  obtain ⟨e, hMeans, written, hReads⟩ := h.reads [] endsType_nil
  rw [List.append_nil] at hReads
  refine ⟨e, ?_, hMeans⟩
  simp only [parseTypeTokens?, run?, hReads]

section Arguments

variable {α : Type} {tokens : α → Tokens} {Means : α → TypeExpr → Prop}

/-- The loop of `angleArguments`. -/
def argumentStep (g : Grammar) (bound : Parser Unit) : Parser (Option AngleArgument) := do
  if ← sees (peekOp ">") then pure none else
  let ((isLifetime, value), tokens) ← written (genericArgument g bound)
  let hasComma ←
    if ← sees (peekOp ">") then pure false
    else
      comma
      pure true
  pure (some { isLifetime, value, tokens, hasComma : AngleArgument })

theorem reads_argumentStep_end (bound : Parser Unit) (t : Tokens) :
    Reads (argumentStep g bound) (Tokens.operator ">" ++ t) none (Tokens.operator ">" ++ t) := by
  refine (reads_sees _ _).bind ?_
  rw [peekOp_operator]
  exact reads_pure none _

theorem reads_argumentStep_last (bound : Parser Unit) {s t : Tokens} {e : TypeExpr} (hBegins : BeginsType s)
    (h : Reads (g.type true) s e (Tokens.operator ">" ++ t)) :
    ∃ written, Reads (argumentStep g bound) s (some ⟨false, .type e, written, false⟩)
      (Tokens.operator ">" ++ t) := by
  obtain ⟨written, hWritten⟩ :=
    Takes.written (reads_typeArgument bound (by simp) hBegins h)
  refine ⟨written, (reads_sees _ s).bind ?_⟩
  rw [hBegins.peekClosing]
  refine hWritten.bind ((reads_sees _ _).bind ?_)
  rw [peekOp_operator]
  exact (reads_pure false _).bind (reads_pure _ _)

theorem reads_argumentStep_more (bound : Parser Unit) {s t : Tokens} {e : TypeExpr} (hBegins : BeginsType s)
    (h : Reads (g.type true) s e (Tokens.operator "," ++ t)) :
    ∃ written, Reads (argumentStep g bound) s (some ⟨false, .type e, written, true⟩) t := by
  obtain ⟨written, hWritten⟩ :=
    Takes.written (reads_typeArgument bound (by simp) hBegins h)
  refine ⟨written, (reads_sees _ s).bind ?_⟩
  rw [hBegins.peekClosing]
  refine hWritten.bind ((reads_sees _ _).bind ?_)
  exact (reads_op "," t).bind ((reads_pure true t).bind (reads_pure _ t))

theorem BeginsType.length_pos {s : Tokens} (h : BeginsType s) : 0 < s.length := by
  refine List.length_pos_of_ne_nil ?_
  rintro rfl
  have hNo := h.peekClosing
  cases h with
  | path h => cases h

theorem repeats_argumentStep (bound : Parser Unit) {ts : List α} (h : ∀ a ∈ ts, ReadsType g true (tokens a) (Means a))
    (t : Tokens) :
    ∃ (es : List TypeExpr) (arguments : List AngleArgument), List.Forall₂ Means ts es ∧
      arguments.map (·.value) = es.map .type ∧
      Repeats (argumentStep g bound)
        (Code.commaSeparated (ts.map tokens) ++ (Tokens.operator ">" ++ t)) arguments
        (Tokens.operator ">" ++ t) := by
  induction ts with
  | nil => exact ⟨[], [], .nil, rfl, .nil (reads_argumentStep_end bound t)⟩
  | cons a ts ih =>
    obtain ⟨hFirst, hRest⟩ := List.forall_mem_cons.mp h
    have hBegins := hFirst.begins.append
    have hLength := hFirst.begins.length_pos
    cases ts with
    | nil =>
      obtain ⟨e, hMeans, hReads⟩ := hFirst.reads _ (endsType_op ">" (by simp) t)
      obtain ⟨written, hStep⟩ := reads_argumentStep_last bound (hBegins _) hReads
      refine ⟨[e], [⟨false, .type e, written, false⟩], .cons hMeans .nil, rfl,
        .cons hStep ?_ (.nil (reads_argumentStep_end bound t))⟩
      simp only [List.map_singleton, Code.commaSeparated, Code.separated, List.length_append]
      omega
    | cons b ts =>
      obtain ⟨es, arguments, hMeans, hValues, hRepeats⟩ := ih hRest
      have hTokens : Code.commaSeparated ((a :: b :: ts).map tokens) ++ (Tokens.operator ">" ++ t) =
          tokens a ++ (Tokens.operator "," ++
            (Code.commaSeparated ((b :: ts).map tokens) ++ (Tokens.operator ">" ++ t))) := by
        simp [Code.commaSeparated, Code.separated, Code.op]
      rw [hTokens]
      obtain ⟨e, hFirstMeans, hReads⟩ := hFirst.reads _ (endsType_op "," (by simp) _)
      obtain ⟨written, hStep⟩ := reads_argumentStep_more bound (hBegins _) hReads
      refine ⟨e :: es, ⟨false, .type e, written, true⟩ :: arguments, .cons hFirstMeans hMeans, ?_,
        .cons hStep ?_ hRepeats⟩
      · simp [hValues]
      · simp only [List.length_append]
        omega

theorem reads_angleArguments (bound : Parser Unit) {ts : List α}
    (h : ∀ a ∈ ts, ReadsType g true (tokens a) (Means a)) (t : Tokens) :
    ∃ es : List TypeExpr, List.Forall₂ Means ts es ∧
      Reads (angleArguments g bound)
        (Tokens.operator "<" ++ (Code.commaSeparated (ts.map tokens) ++ (Tokens.operator ">" ++ t)))
        (es.map .type) t := by
  obtain ⟨es, arguments, hMeans, hValues, hRepeats⟩ := repeats_argumentStep bound h t
  refine ⟨es, hMeans, ?_⟩
  have hOpening : Reads (do
      skip (opIf "::")
      op "<") (Tokens.operator "<" ++
        (Code.commaSeparated (ts.map tokens) ++ (Tokens.operator ">" ++ t))) ()
      (Code.commaSeparated (ts.map tokens) ++ (Tokens.operator ">" ++ t)) := by
    have hNoColons : Reads (opIf "::") (Tokens.operator "<" ++
        (Code.commaSeparated (ts.map tokens) ++ (Tokens.operator ">" ++ t))) false _ :=
      reads_opIf_false rfl
    exact hNoColons.takes.skip.bind (reads_op "<" _)
  obtain ⟨opening, hOpening⟩ := Takes.written hOpening
  rw [← hValues]
  exact Reads.respelled (hOpening.bind (hRepeats.reads.bind
    ((reads_op ">" t).bind (reads_pure _ t))))

end Arguments

/-! ## Units, slices and references -/

theorem reads_unitType (allowPlus : Bool) (t : Tokens) :
    Reads (typeStep g allowPlus) (.group .parenthesis [] :: t) .unit t := by
  have hContent : Reads (parenContent g) [] .empty [] := (reads_rest []).bind (reads_pure _ [])
  have hShape : Reads (typeShape g allowPlus) (.group .parenthesis [] :: t) (fun _ => .unit) t := by
    refine (reads_boundLifetimes rfl).bind ((reads_rest _).bind ?_)
    refine (reads_guard (by simp) _).bind ?_
    exact (reads_group .parenthesis hContent t).bind (reads_pure _ t)
  obtain ⟨_, hType⟩ := reads_typeStep _ hShape
  exact hType

theorem reads_sliceType {body : Tokens} {e : TypeExpr} (h : Reads (g.type true) body e [])
    (allowPlus : Bool) (t : Tokens) :
    ∃ tokens, Reads (typeStep g allowPlus) (.group .bracket body :: t) (.slice tokens e) t := by
  refine reads_typeStep (fun tokens => .slice tokens e) ?_
  refine (reads_boundLifetimes rfl).bind ((reads_rest _).bind ?_)
  refine (reads_guard (by simp) _).bind ?_
  have hElement : Reads (do
      let element ← g.type true
      if ← sees (peekOp ";") then
        op ";"
        skip (g.expr true)
        pure none
      else pure (some element)) body (some e) [] :=
    h.bind ((reads_sees _ []).bind (reads_pure _ []))
  exact (reads_group .bracket hElement t).bind (reads_pure _ t)

theorem reads_referenceType (lifetime : Option String) {s t : Tokens} {e : TypeExpr}
    (hLifetime : peekLifetime s = false) (hMut : peekWord "mut" s = false)
    (h : Reads (g.type false) s e t) (allowPlus : Bool) :
    ∃ tokens, Reads (typeStep g allowPlus)
      (Tokens.operator "&" ++ ((lifetime.map Code.lifetimeTokens).getD [] ++ s))
      (.reference tokens lifetime false e) t := by
  refine reads_typeStep (fun tokens => .reference tokens lifetime false e) ?_
  refine (reads_boundLifetimes rfl).bind ((reads_rest _).bind ?_)
  refine (reads_guard (by simp) _).bind ?_
  have hTarget : Reads (do
      let isMut ← wordIf "mut"
      let target ← g.type false
      pure fun tokens => TypeExpr.reference tokens lifetime isMut target) s
      (fun tokens => .reference tokens lifetime false e) t :=
    (reads_wordIf_false hMut).bind (h.bind (reads_pure _ t))
  refine (reads_op "&" _).bind ?_
  cases lifetime with
  | none => exact (reads_ifSees_none hLifetime).bind hTarget
  | some name => exact (reads_ifSees rfl (reads_lifetime name s)).bind hTarget

/-! ## Whole types -/

theorem BeginsType.peekMut {s : Tokens} (h : BeginsType s) : peekWord "mut" s = false := by
  cases h with
  | path h => exact h.peekWord (by decide)
  | unit | slice | reference => rfl

theorem readsType_unit (allowPlus : Bool) :
    ReadsType (Grammar.step g) allowPlus [.group .parenthesis []] (· = .unit) :=
  ⟨.unit [] [], fun t _ => ⟨.unit, rfl, reads_unitType allowPlus t⟩⟩

theorem readsType_slice {body : Tokens} {Means : TypeExpr → Prop}
    (h : ReadsType g true body Means) (allowPlus : Bool) :
    ReadsType (Grammar.step g) allowPlus [.group .bracket body]
      (fun e => ∃ tokens element, Means element ∧ e = .slice tokens element) := by
  refine ⟨.slice body [], fun t _ => ?_⟩
  obtain ⟨element, hMeans, hReads⟩ := h.reads [] endsType_nil
  rw [List.append_nil] at hReads
  obtain ⟨tokens, hSlice⟩ := reads_sliceType hReads allowPlus t
  exact ⟨_, ⟨tokens, element, hMeans, rfl⟩, hSlice⟩

theorem readsType_reference {s : Tokens} {Means : TypeExpr → Prop} (h : ReadsType g false s Means)
    (lifetime : Option String) (allowPlus : Bool) :
    ReadsType (Grammar.step g) allowPlus
      (Tokens.operator "&" ++ ((lifetime.map Code.lifetimeTokens).getD [] ++ s))
      (fun e => ∃ tokens target, Means target ∧ e = .reference tokens lifetime false target) := by
  refine ⟨.reference _, fun t hEnds => ?_⟩
  obtain ⟨target, hMeans, hReads⟩ := h.reads t hEnds
  have hBegins := h.begins.append t
  obtain ⟨tokens, hReference⟩ := reads_referenceType lifetime hBegins.peekLifetime
    hBegins.peekMut hReads allowPlus
  refine ⟨_, ⟨tokens, target, hMeans, rfl⟩, ?_⟩
  rw [List.append_assoc, List.append_assoc]
  exact hReference

theorem readsType_bare {isGlobal : Bool} (hSegments : ∀ name ∈ front ++ [last], IsSegment name)
    (hHead : isGlobal = true ∨ (front ++ [last]).head? ≠ some "try") (allowPlus : Bool) :
    ReadsType (Grammar.step g) allowPlus (pathStart isGlobal (front ++ [last]))
      (fun e => ∃ tokens, e = .path tokens isGlobal (front.map bareSegment ++ [.mk last .none])) := by
  have hBegins := beginsPath_pathStart (by simp) hSegments hHead
  refine ⟨.path (by simpa using hBegins []), fun t hEnds => ?_⟩
  have hLast : Reads (pathSegment g (innerBound g) false) (.ident last :: t) (.mk last .none) t :=
    reads_bareSegment (hSegments last (by simp)) (noArguments_of_endsType hEnds)
  obtain ⟨tokens, hReads⟩ := reads_typePath (hBegins t)
    (reads_plainPath isGlobal hSegments hLast le_rfl hEnds.colons) rfl hEnds allowPlus
  exact ⟨_, ⟨tokens, rfl⟩, hReads⟩

theorem readsType_applied {α : Type} {tokens : α → Tokens} {Means : α → TypeExpr → Prop}
    {ts : List α} {isGlobal : Bool} (hSegments : ∀ name ∈ front ++ [last], IsSegment name)
    (hHead : isGlobal = true ∨ (front ++ [last]).head? ≠ some "try")
    (hTakes : takesArguments last = true)
    (h : ∀ a ∈ ts, ReadsType g true (tokens a) (Means a)) (allowPlus : Bool) :
    ReadsType (Grammar.step g) allowPlus
      (pathStart isGlobal (front ++ [last]) ++
        (Tokens.operator "<" ++ (Code.commaSeparated (ts.map tokens) ++ Tokens.operator ">")))
      (fun e => ∃ (written : Tokens) (es : List TypeExpr), List.Forall₂ Means ts es ∧
        e = .path written isGlobal (front.map bareSegment ++ [.mk last (.angle (es.map .type))])) := by
  have hBegins := beginsPath_pathStart (by simp) hSegments hHead
  refine ⟨.path (hBegins _), fun t hEnds => ?_⟩
  obtain ⟨es, hMeans, hArguments⟩ := reads_angleArguments (innerBound g) h t
  have hLast := reads_angleSegment (hSegments last (by simp)) hTakes hArguments
  have hShorter : t.length ≤ (Tokens.operator "<" ++ (Code.commaSeparated (ts.map tokens) ++
      (Tokens.operator ">" ++ t))).length := by
    simp only [List.length_append]
    omega
  obtain ⟨written, hReads⟩ := reads_typePath (hBegins _)
    (reads_plainPath isGlobal hSegments hLast hShorter hEnds.colons) rfl hEnds
    allowPlus
  refine ⟨_, ⟨written, es, hMeans, rfl⟩, ?_⟩
  simp only [List.append_assoc]
  exact hReads

end Parser
end TraitClient.Source
