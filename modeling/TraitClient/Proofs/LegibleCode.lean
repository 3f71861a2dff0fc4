import TraitClient.Emission.Unit
import TraitClient.Proofs.BodyContents
import TraitClient.Proofs.EndpointText
import TraitClient.Proofs.Identifiers

/-!
# Legible code

Code is legible if each of its names can stand where it is written: variables, fields and functions
are identifiers and no keywords, the segments of paths may be path words.  Expressions and
statements stand only where no parentheses are needed.  Code that is generated for a method is
legible as soon as the names and types of the method are.
-/
namespace TraitClient

namespace Code

/-! ## Names and paths -/

/-- An identifier that is no keyword. -/
structure IsName (name : String) : Prop where
  token : (Word.ident name).isToken = true
  plain : Source.isPlainName name = true

/-- Keywords that a path may have as segments. -/
def pathWords : List String := ["self", "Self", "super", "crate", "try"]

structure IsSegment (name : String) : Prop where
  token : (Word.ident name).isToken = true
  word : Source.isPlainName name = true ∨ name ∈ pathWords

theorem IsName.isSegment {name : String} (h : IsName name) : IsSegment name := ⟨h.token, .inl h.plain⟩

/-- Whether a type may have arguments behind this segment. -/
def takesArguments (segment : String) : Bool := Source.isPlainName segment || segment == "Self"

/-- A path that the code can name a type or a trait by.  Only behind a `::` may it start with
`try`. -/
structure IsPath (path : String) : Prop where
  segments : ∀ s ∈ pathSegments path, IsSegment s
  head : isGlobalPath path = true ∨ (pathSegments path).head? ≠ some "try"

end Code

/-- A type that can be written down: `()`, a slice, or a path with its arguments. -/
inductive TypeRef.Legible : TypeRef → Prop
  | mk {t : TypeRef} (lifetime : ∀ l ∈ t.lifetime, (Code.Word.lifetime l).isToken = true)
      (base : t.path = "()" ∨ (t.qualifiedName = sliceName ∧ t.arguments ≠ []) ∨
        (t.qualifiedName ≠ sliceName ∧ Code.IsPath t.path ∧
          (t.arguments ≠ [] →
            ∀ s ∈ (Code.pathSegments t.path).getLast?, Code.takesArguments s = true)))
      (arguments : ∀ a ∈ t.arguments, a.Legible) : t.Legible

namespace Code

/-! ## Expressions and statements -/

/-- Whether calls, fields and `?` can follow the expression. -/
def Expr.isOperand : Expr → Bool
  | .borrow _ => false
  | .closure .. => false
  | _ => true

/-- Whether a statement can begin with the expression: it starts with a path or with `&`. -/
def Expr.opensStatement : Expr → Bool
  | .var _ => true
  | .runtime _ => true
  | .associated .. => true
  | .borrow _ => true
  | .field target _ => target.opensStatement
  | .call function _ => function.opensStatement
  | .method receiver .. => receiver.opensStatement
  | .await target => target.opensStatement
  | .propagate target => target.opensStatement
  | _ => false

inductive Expr.Legible : Expr → Prop
  | var {name : String} (h : IsName name) : Legible (.var name)
  | self : Legible (.var "self")
  | string (s : String) : Legible (.string s)
  | unit : Legible .unit
  | runtime {segments : List String} (nonempty : segments ≠ []) (h : ∀ s ∈ segments, IsName s) :
    Legible (.runtime segments)
  | associated {type name : String} (hType : IsName type) (hName : IsName name) :
    Legible (.associated type name)
  | field {target : Expr} {name : String} (h : target.Legible) (operand : target.isOperand = true)
      (hName : IsName name) : Legible (.field target name)
  | pair {first second : Expr} (hFirst : first.Legible) (hSecond : second.Legible) :
    Legible (.pair first second)
  | singleton {element : Expr} (h : element.Legible) : Legible (.singleton element)
  | borrow {target : Expr} (h : target.Legible) (operand : target.isOperand = true) :
    Legible (.borrow target)
  | call {function : Expr} {arguments : List Expr} (h : function.Legible)
      (operand : function.isOperand = true) (hArguments : ∀ a ∈ arguments, a.Legible) :
    Legible (.call function arguments)
  | method {receiver : Expr} {name : String} {arguments : List Expr} (h : receiver.Legible)
      (operand : receiver.isOperand = true) (hName : IsName name)
      (hArguments : ∀ a ∈ arguments, a.Legible) : Legible (.method receiver name arguments)
  | await {target : Expr} (h : target.Legible) (operand : target.isOperand = true) :
    Legible (.await target)
  | propagate {target : Expr} (h : target.Legible) (operand : target.isOperand = true) :
    Legible (.propagate target)
  | format {template : String} {arguments : List Expr} (hArguments : ∀ a ∈ arguments, a.Legible) :
    Legible (.format template arguments)
  | closure {parameter : String} {body : Expr} (hParameter : IsName parameter)
      (h : body.Legible) (operand : body.isOperand = true) : Legible (.closure parameter body)

def Statement.isResult : Statement → Bool
  | .result _ => true
  | _ => false

inductive Statement.Legible : Statement → Prop
  | letValue {isMut : Bool} {name : String} {value : Expr} (hName : IsName name)
      (h : value.Legible) : Legible (.letValue isMut name value)
  | letPair {first second : String} {value : Expr} (hFirst : IsName first)
      (hSecond : IsName second) (h : value.Legible) : Legible (.letPair first second value)
  | assign {name : String} {value : Expr} (hName : IsName name) (h : value.Legible) :
    Legible (.assign name value)
  | forEach {bound : String} {source : Expr} {body : List Statement} (hBound : IsName bound)
      (h : source.Legible) (hBody : ∀ st ∈ body, st.Legible)
      (running : ∀ st ∈ body, st.isResult = false) : Legible (.forEach bound source body)
  | ifSome {bound : String} {source : Expr} {body : List Statement} (hBound : IsName bound)
      (h : source.Legible) (hBody : ∀ st ∈ body, st.Legible)
      (running : ∀ st ∈ body, st.isResult = false) : Legible (.ifSome bound source body)
  | run {e : Expr} (h : e.Legible) (opens : e.opensStatement = true) : Legible (.run e)
  | result {e : Expr} (h : e.Legible) (opens : e.opensStatement = true) : Legible (.result e)
  | built {fields : List String} (h : ∀ f ∈ fields, IsName f) : Legible (.result (.construct fields))

/-- Statements in a block, of which only the last can be its value. -/
structure IsBlock (statements : List Statement) : Prop where
  legible : ∀ st ∈ statements, st.Legible
  running : ∀ st ∈ statements.dropLast, st.isResult = false

/-! ## Items -/

inductive CodeType.Legible : CodeType → Prop
  | model {t : TypeRef} (h : t.Legible) : Legible (.model t)
  | selfType : Legible .selfType
  | named {name : String} (h : IsName name) : Legible (.named name)
  | runtime {name : String} (h : IsName name) : Legible (.runtime name)
  | runtimeReference {name : String} (h : IsName name) : Legible (.runtimeReference name)

structure IsTyped (p : String × CodeType) : Prop where
  name : IsName p.1
  type : p.2.Legible

structure Function.Legible (f : Function) : Prop where
  name : IsName f.name
  parameters : ∀ p ∈ f.parameters, IsTyped p
  output : f.output.Legible
  body : IsBlock f.body

inductive Item.Legible : Item → Prop
  | struct {comment : String} {visibility : Visibility} {name : String}
      {fields : List (String × CodeType)} (hName : IsName name) (hFields : ∀ f ∈ fields, IsTyped f) :
    Legible (.struct comment visibility name fields)
  | inherent {type : String} {functions : List Function} (hType : IsName type)
      (hFunctions : ∀ f ∈ functions, f.Legible) : Legible (.inherent type functions)
  | implementation {trait type : String} {functions : List Function} (hTrait : IsPath trait)
      (hType : IsName type) (hFunctions : ∀ f ∈ functions, f.Legible) :
    Legible (.implementation trait type functions)
  | function {f : Function} (h : f.Legible) : Legible (.function f)

/-! ## The words of legible code -/

def AreTokens (words : List Word) : Prop := ∀ w ∈ words, w.isToken = true

@[simp]
theorem areTokens_nil : AreTokens [] := fun _ hw => absurd hw List.not_mem_nil

@[simp]
theorem areTokens_cons {w : Word} {words : List Word} :
    AreTokens (w :: words) ↔ w.isToken = true ∧ AreTokens words := List.forall_mem_cons

@[simp]
theorem areTokens_append {a b : List Word} : AreTokens (a ++ b) ↔ AreTokens a ∧ AreTokens b :=
  List.forall_mem_append

theorem areTokens_map_ident {names : List String}
    (h : ∀ n ∈ names, (Word.ident n).isToken = true) : AreTokens (names.map .ident) := by
  intro w hw
  obtain ⟨n, hn, rfl⟩ := List.mem_map.mp hw
  exact h n hn

theorem areTokens_flatMap {α : Type} {items : List α} {words : α → List Word}
    (h : ∀ a ∈ items, AreTokens (words a)) : AreTokens (items.flatMap words) := by
  intro w hw
  obtain ⟨a, ha, hw⟩ := List.mem_flatMap.mp hw
  exact h a ha w hw

end Code

namespace TypeRef

theorem listWords_eq (ts : List TypeRef) : listWords ts = ts.flatMap (·.words) := by
  induction ts with
  | nil => rfl
  | cons t ts ih => rw [listWords, ih, List.flatMap_cons]

theorem firstWords_subset (ts : List TypeRef) : firstWords ts ⊆ ts.flatMap (·.words) := by
  cases ts with
  | nil => exact List.nil_subset _
  | cons t ts =>
    rw [firstWords, List.flatMap_cons]
    exact List.subset_append_left _ _

theorem Legible.areTokens {t : TypeRef} (h : t.Legible) : Code.AreTokens t.words := by
  induction h with
  | @mk t hLifetime hBase hArguments ih =>
    obtain ⟨qualifiedName, path, arguments, nullable, byRef, lifetime⟩ := t
    have hBelow := Code.areTokens_flatMap ih
    rw [words, Code.areTokens_append]
    constructor
    · split
      · intro w hw
        obtain ⟨l, hl, rfl⟩ := List.mem_map.mp hw
        exact hLifetime l (by simpa using hl)
      · exact Code.areTokens_nil
    · split
      · exact Code.areTokens_nil
      · rename_i hUnit
        split
        · exact fun w hw => hBelow w (firstWords_subset _ hw)
        · rename_i hSlice
          have hPath : Code.IsPath path := by
            rcases hBase with hBase | hBase | hBase
            · exact absurd (beq_iff_eq.mpr hBase) hUnit
            · exact absurd (beq_iff_eq.mpr hBase.1) hSlice
            · exact hBase.2.1
          rw [Code.areTokens_append, listWords_eq]
          exact ⟨Code.areTokens_map_ident fun n hn => (hPath.segments n hn).token, hBelow⟩

end TypeRef

namespace Code

theorem Expr.listWords_eq (es : List Expr) : Expr.listWords es = es.flatMap (·.words) := by
  induction es with
  | nil => rfl
  | cons e es ih => rw [Expr.listWords, ih, List.flatMap_cons]

theorem Statement.listWords_eq (sts : List Statement) :
    Statement.listWords sts = sts.flatMap (·.words) := by
  induction sts with
  | nil => rfl
  | cons st sts ih => rw [Statement.listWords, ih, List.flatMap_cons]

theorem Expr.Legible.areTokens {e : Expr} (h : e.Legible) : AreTokens e.words := by
  induction h with
  | var h => simp [Expr.words, h.token]
  | self =>
    have hSelf : (Word.ident "self").isToken = true := by decide
    simp [Expr.words, hSelf]
  | string | unit => exact areTokens_nil
  | runtime _ h => exact areTokens_map_ident fun n hn => (h n hn).token
  | associated hType hName => simp [Expr.words, hType.token, hName.token]
  | field _ _ hName ih => simp [Expr.words, ih, hName.token]
  | pair _ _ ihFirst ihSecond => exact areTokens_append.mpr ⟨ihFirst, ihSecond⟩
  | singleton _ ih | borrow _ _ ih | await _ _ ih | propagate _ _ ih => exact ih
  | call _ _ _ ih ihArguments =>
    rw [Expr.words, areTokens_append, Expr.listWords_eq]
    exact ⟨ih, areTokens_flatMap ihArguments⟩
  | method _ _ hName _ ih ihArguments =>
    rw [Expr.words, areTokens_append, areTokens_cons, Expr.listWords_eq]
    exact ⟨ih, hName.token, areTokens_flatMap ihArguments⟩
  | format _ ihArguments =>
    rw [Expr.words, Expr.listWords_eq]
    exact areTokens_flatMap ihArguments
  | closure hParameter _ _ ih => exact areTokens_cons.mpr ⟨hParameter.token, ih⟩

theorem Statement.Legible.areTokens {st : Statement} (h : st.Legible) : AreTokens st.words := by
  induction h with
  | letValue hName h | assign hName h => exact areTokens_cons.mpr ⟨hName.token, h.areTokens⟩
  | letPair hFirst hSecond h =>
    exact areTokens_cons.mpr ⟨hFirst.token, areTokens_cons.mpr ⟨hSecond.token, h.areTokens⟩⟩
  | forEach hBound h _ _ ih | ifSome hBound h _ _ ih =>
    rw [Statement.words, areTokens_append, areTokens_cons, Statement.listWords_eq]
    exact ⟨⟨hBound.token, h.areTokens⟩, areTokens_flatMap ih⟩
  | run h _ | result h _ => exact h.areTokens
  | built h => exact areTokens_map_ident fun f hf => (h f hf).token

theorem CodeType.Legible.areTokens {t : CodeType} (h : t.Legible) : AreTokens t.words := by
  cases h with
  | model h => exact h.areTokens
  | selfType => exact areTokens_nil
  | named h | runtime h | runtimeReference h => exact areTokens_cons.mpr ⟨h.token, areTokens_nil⟩

theorem areTokens_typed {ps : List (String × CodeType)} (h : ∀ p ∈ ps, IsTyped p) :
    AreTokens (ps.flatMap fun p => .ident p.1 :: p.2.words) :=
  areTokens_flatMap fun p hp => areTokens_cons.mpr ⟨(h p hp).name.token, (h p hp).type.areTokens⟩

theorem Function.Legible.areTokens {f : Function} (h : f.Legible) : AreTokens f.words := by
  rw [Function.words, Statement.listWords_eq]
  simp only [areTokens_append, areTokens_cons]
  exact ⟨⟨⟨h.name.token, areTokens_typed h.parameters⟩, h.output.areTokens⟩,
    areTokens_flatMap fun st hst => (h.body.legible st hst).areTokens⟩

theorem Item.Legible.areTokens {item : Item} (h : item.Legible) : AreTokens item.words := by
  cases h with
  | struct hName hFields => exact areTokens_cons.mpr ⟨hName.token, areTokens_typed hFields⟩
  | inherent hType hFunctions =>
    exact areTokens_cons.mpr ⟨hType.token, areTokens_flatMap fun f hf => (hFunctions f hf).areTokens⟩
  | implementation hTrait hType hFunctions =>
    rw [Item.words, areTokens_append, areTokens_cons]
    exact ⟨areTokens_map_ident fun n hn => (hTrait.segments n hn).token, hType.token,
      areTokens_flatMap fun f hf => (hFunctions f hf).areTokens⟩
  | function h => exact h.areTokens

theorem firstBad?_eq_none_iff {words : List Word} : firstBad? words = none ↔ AreTokens words := by
  simp [firstBad?, AreTokens]

end Code
end TraitClient
