import TraitClient.Code.Tokens
import TraitClient.Layout.Doc

/-!
# Layout of generated code

Lines have 89 columns, blocks are indented by four.  Lists between brackets stay on a line or have
one element a line with a comma behind the last; chains of calls break before their dots.
-/
namespace TraitClient

open Layout (Doc)
open Layout.Doc (allOrNone fill text concat zeroBreak space hardBreak neverBreak)

namespace Code

def step : Int := 4

/-- Elements that stay on a line or have a line each, between brackets that are not written here. -/
def elements : List Doc → Doc
  | [] => allOrNone step (.line { offset := -step })
  | items =>
    let rec joined : List Doc → Doc
      | [] => .empty
      | [d] => d ++ .line { before := ",", offset := -step }
      | d :: rest => d ++ text "," ++ space ++ joined rest
    allOrNone step (zeroBreak ++ joined items)

def bracketed (opening closing : String) (items : List Doc) : Doc :=
  text opening ++ elements items ++ text closing

/-- Lines of a block after its opening brace, each with its end; the last one is out by a step. -/
def blockLines (lines : List Doc) : Doc :=
  let rec go : List Doc → Doc
    | [] => .empty
    | [d] => d ++ .line { blank := Layout.Doc.unfitting, offset := -step }
    | d :: rest => d ++ hardBreak ++ go rest
  match lines with
  | [] => .line { blank := Layout.Doc.unfitting, offset := -step, ifNonempty := true }
  | lines => .line { blank := Layout.Doc.unfitting, ifNonempty := true } ++ go lines

/-! ## Types -/

/-- Whether arguments follow a segment at once, or after `::` as in an expression. -/
inductive PathPlace
  | inType
  | inExpr
  deriving DecidableEq

def isLifetimeArgument : Source.TypeArgument → Bool
  | .lifetime _ => true
  | _ => false

mutual

def typeExprDoc : Source.TypeExpr → Doc
  | .paren _ inner => text "(" ++ typeExprDoc inner ++ text ")"
  | .unit => bracketed "(" ")" []
  | .reference _ lifetime isMut target =>
    text "&" ++
      (match lifetime with
        | some l => text ("'" ++ l ++ " ")
        | none => .empty) ++
      (if isMut then text "mut " else .empty) ++ typeExprDoc target
  | .slice _ element => text "[" ++ typeExprDoc element ++ text "]"
  | .path _ leadingColon segments => pathDoc .inType leadingColon segments
  | .other tokens => text (Source.TokenTree.listText tokens)

def pathDoc (place : PathPlace) (leadingColon : Bool) : List Source.TypeSegment → Doc
  | [] => .empty
  | s :: rest =>
    (if leadingColon then text "::" else .empty) ++ segmentDoc place s ++ pathDoc place true rest

def segmentDoc (place : PathPlace) : Source.TypeSegment → Doc
  | .mk name arguments => text name ++ argumentsDoc place arguments

def argumentsDoc (place : PathPlace) : Source.TypeArguments → Doc
  | .none => .empty
  | .parenthesized => .empty
  | .angle arguments =>
    let docs := argumentDocs arguments
    if docs.isEmpty then .empty
    else
      let (lifetimes, others) := docs.partition (·.1)
      text (if place = .inExpr then "::<" else "<") ++
        elements (lifetimes.map (·.2) ++ others.map (·.2)) ++ text ">"

/-- The documents of arguments, those of lifetimes marked. -/
def argumentDocs : List Source.TypeArgument → List (Bool × Doc)
  | [] => []
  | a :: rest => (isLifetimeArgument a, argumentDoc a) :: argumentDocs rest

def argumentDoc : Source.TypeArgument → Doc
  | .type t => typeExprDoc t
  | .lifetime name => text ("'" ++ name)
  | .other => .empty

end

def pathText (path : String) : String :=
  (if isGlobalPath path then "::" else "") ++ "::".intercalate (pathSegments path)

end Code

mutual

def TypeRef.doc : TypeRef → Doc
  | ⟨qualifiedName, path, arguments, nullable, byRef, lifetime⟩ =>
    let reference : Doc :=
      if byRef then
        text "&" ++ (match lifetime with
          | some l => text ("'" ++ l ++ " ")
          | none => .empty)
      else .empty
    let base : Doc :=
      if path == "()" then Code.bracketed "(" ")" []
      else if qualifiedName == sliceName then text "[" ++ TypeRef.firstDoc arguments ++ text "]"
      else if arguments.isEmpty then text (Code.pathText path)
      else text (Code.pathText path) ++ Code.bracketed "<" ">" (TypeRef.docs arguments)
    if nullable then
      text "::core::option::Option" ++ Code.bracketed "<" ">" [reference ++ base]
    else reference ++ base

def TypeRef.firstDoc : List TypeRef → Doc
  | [] => .empty
  | t :: _ => t.doc

def TypeRef.docs : List TypeRef → List Doc
  | [] => []
  | t :: rest => t.doc :: TypeRef.docs rest

end

namespace Code

def runtimeDoc (rt : Source.PathExpr) (place : PathPlace) (segments : List String) : Doc :=
  pathDoc place rt.leadingColon rt.segments ++
    text (String.join (segments.map fun s => "::" ++ s))

def CodeType.doc (rt : Source.PathExpr) : CodeType → Doc
  | .model t => t.doc
  | .selfType => text "Self"
  | .named name => text name
  | .runtime name => runtimeDoc rt .inType [name]
  | .runtimeReference name => text "&" ++ runtimeDoc rt .inType [name]

/-! ## Expressions -/

/-- Where an expression stands: in a chain that goes on behind it, at the start of a line. -/
structure Place where
  inChain : Bool
  startsLine : Bool

/-- What is no chain is not indented with the chain behind it. -/
def Place.wrap (place : Place) (d : Doc) : Doc := if place.inChain then allOrNone (-step) d else d

/-- A name that is no longer than a step: a dot may follow it at once at the start of a line. -/
def isShort : Expr → Bool
  | .var name => name.utf8ByteSize ≤ 4
  | _ => false

/-- Whether an argument brings its own brackets, so that it needs no lines of its own. -/
def hasBrackets : Expr → Bool
  | .singleton _ => true
  | .closure _ _ => true
  | .construct _ => true
  | .pair _ _ => true
  | .unit => true
  | _ => false

/-- Whether the brace after a condition moves to a new line if the condition breaks. -/
def endsInChain : Expr → Bool
  | .await _ => true
  | .field _ _ => true
  | .method _ _ _ => true
  | .call function _ => endsInChain function
  | .propagate target => endsInChain target
  | .borrow target => endsInChain target
  | _ => false

def formatDoc (template : String) (arguments : List Doc) : Doc :=
  let rest := arguments.foldr
    (fun d (more : Doc × Bool) =>
      (space ++ d ++ (if more.2 then text "," ++ more.1 else .empty), true)) (.empty, false)
  text "format!(" ++
    allOrNone step
      (zeroBreak ++ fill 0 (text (Source.Literal.quote template) ++ text "," ++ rest.1) ++
        .line { offset := -step }) ++
    text ")"

mutual

def Expr.doc (rt : Source.PathExpr) (place : Place) : Expr → Doc
  | .field target name =>
    let chain := target.doc rt ⟨true, place.startsLine⟩ ++
      (if place.startsLine && isShort target then .empty else zeroBreak) ++ text ("." ++ name)
    if place.inChain then chain else allOrNone step chain
  | .await target =>
    let chain := target.doc rt ⟨true, place.startsLine⟩ ++
      (if place.startsLine && isShort target then .empty else zeroBreak) ++ text ".await"
    if place.inChain then chain else allOrNone step chain
  | .method receiver name arguments =>
    let close := place.startsLine && isShort receiver
    let chain := receiver.doc rt ⟨true, place.startsLine⟩ ++
      (if close then .empty else zeroBreak) ++ text ("." ++ name) ++
      allOrNone (if close && !place.inChain then -step else 0)
        (text "(" ++ Expr.argumentsDoc rt arguments ++ text ")")
    if place.inChain then chain else allOrNone step chain
  | .call function arguments =>
    function.doc rt ⟨place.inChain, place.startsLine && !place.inChain⟩ ++ text "(" ++
      Expr.argumentsDoc rt arguments ++ text ")"
  | .propagate target => target.doc rt place ++ text "?"
  | .var name => Place.wrap place (text name)
  | .string s => Place.wrap place (text (Source.Literal.quote s))
  | .unit => Place.wrap place (bracketed "(" ")" [])
  | .runtime segments => Place.wrap place (runtimeDoc rt .inExpr segments)
  | .associated type name => Place.wrap place (text (type ++ "::" ++ name))
  | .construct fields =>
    let listed : List Doc → Doc := fun docs =>
      docs.foldr (fun d (more : Doc × Bool) =>
        (d ++ (if more.2 then text "," ++ space ++ more.1
          else .line { blank := 1, before := ",", offset := -step }), true)) (.empty, false) |>.1
    Place.wrap place <|
      allOrNone step
        (fill (-step) (text "Self") ++ text " \x7b" ++
          .line { blank := 1, ifNonempty := true } ++ listed (fields.map text)) ++ text "\x7d"
  | .pair first second =>
    Place.wrap place (bracketed "(" ")" [first.doc rt ⟨false, false⟩, second.doc rt ⟨false, false⟩])
  | .singleton element => Place.wrap place (bracketed "[" "]" [element.doc rt ⟨false, false⟩])
  | .borrow target => Place.wrap place (text "&" ++ target.doc rt ⟨false, false⟩)
  | .format template arguments =>
    Place.wrap place (formatDoc template (Expr.docs rt arguments))
  | .closure parameter body =>
    let bodyDoc := body.doc rt ⟨false, false⟩
    Place.wrap place <|
      allOrNone step
        (text "|" ++ zeroBreak ++ text parameter ++ text "|" ++
          .line { blank := 1, offset := -step }) ++ neverBreak ++
      (if hasBrackets body then bodyDoc
      else
        allOrNone step
          (.line { before := "\x7b" } ++ bodyDoc ++ .line { offset := -step, after := "\x7d" }))

/-- The arguments of a call.  A single one with brackets of its own stays at the parenthesis. -/
def Expr.argumentsDoc (rt : Source.PathExpr) : List Expr → Doc
  | [] => elements []
  | [e] =>
    let d := e.doc rt ⟨false, false⟩
    if hasBrackets e then d else elements [d]
  | e :: rest => elements (e.doc rt ⟨false, false⟩ :: Expr.docs rt rest)

def Expr.docs (rt : Source.PathExpr) : List Expr → List Doc
  | [] => []
  | e :: rest => e.doc rt ⟨false, false⟩ :: Expr.docs rt rest

end

/-! ## Statements -/

def beforeBlock (d : Doc) (inChain : Bool) : Doc :=
  allOrNone 0 (d ++ (if inChain then space else text " "))

def someDoc (bound : String) : Doc := bracketed "Some(" ")" [text bound]

mutual

def Statement.doc (rt : Source.PathExpr) : Statement → Doc
  | .letValue isMut name value =>
    fill 0 (text (if isMut then "let mut " else "let ") ++ text name ++ text " = " ++ neverBreak ++
      value.doc rt ⟨false, false⟩ ++ text ";")
  | .letPair first second value =>
    fill 0 (text "let " ++ bracketed "(" ")" [text first, text second] ++ text " = " ++
      neverBreak ++ value.doc rt ⟨false, false⟩ ++ text ";")
  | .assign name value =>
    fill 0 (fill 0 (text name ++ text " = " ++ neverBreak ++ value.doc rt ⟨false, false⟩) ++
      text ";")
  | .forEach bound source body =>
    fill 0 (text ("for " ++ bound ++ " in ") ++ neverBreak ++
      beforeBlock (source.doc rt ⟨false, false⟩) (endsInChain source) ++ text "\x7b" ++
      neverBreak ++ allOrNone step (blockLines (Statement.docs rt body)) ++ text "\x7d")
  | .ifSome bound source body =>
    fill 0 <| allOrNone step
      (text "if " ++
        allOrNone (-step) (beforeBlock
          (text "let " ++ someDoc bound ++ text " = " ++ neverBreak ++
            source.doc rt ⟨false, false⟩) (endsInChain source)) ++
        text "\x7b" ++ blockLines (Statement.docs rt body) ++ text "\x7d")
  | .run e => fill 0 (e.doc rt ⟨false, true⟩ ++ text ";")
  | .result e => fill 0 (e.doc rt ⟨false, true⟩)

def Statement.docs (rt : Source.PathExpr) : List Statement → List Doc
  | [] => []
  | s :: rest => s.doc rt :: Statement.docs rt rest

end

/-! ## Items -/

def visibilityText : Visibility → String
  | .everywhere => "pub "
  | .crateOnly => "pub(crate) "

def docLine (content : String) : Doc := text ("///" ++ content) ++ hardBreak

def typedDoc (rt : Source.PathExpr) (p : String × CodeType) : Doc :=
  text (p.1 ++ ": ") ++ p.2.doc rt

def Function.doc (rt : Source.PathExpr) (f : Function) : Doc :=
  (match f.comment with
    | some content => docLine content
    | none => .empty) ++
    (if f.allowsUnused then text "#[allow(unused_variables)]" ++ space else .empty) ++
    allOrNone step
      (text ((f.visibility.map visibilityText).getD "") ++
        text (if f.isAsync then "async " else "") ++ text ("fn " ++ f.name ++ "(") ++ neverBreak ++
        allOrNone 0 (functionParameters ((if f.takesSelf then [text "&self"] else []) ++
          f.parameters.map (typedDoc rt))) ++
        text ")" ++ allOrNone (-step) (text " -> " ++ f.output.doc rt) ++ text " \x7b" ++
        blockLines (Statement.docs rt f.body)) ++
    text "\x7d"
where
  functionParameters (items : List Doc) : Doc :=
    let rec joined : List Doc → Doc
      | [] => .empty
      | [d] => d ++ .line { before := ",", offset := -step }
      | d :: rest => d ++ text "," ++ space ++ joined rest
    if items.isEmpty then .line { offset := -step } else zeroBreak ++ joined items

def implDoc (rt : Source.PathExpr) (head : Doc) (functions : List Function) : Doc :=
  allOrNone step
    (fill (-step) (allOrNone step (text "impl") ++ text " " ++ head) ++ text " \x7b" ++
      blockLines (functions.map (·.doc rt))) ++
    text "\x7d"

def Item.doc (rt : Source.PathExpr) : Item → Doc
  | .struct content visibility name fields =>
    docLine content ++
      allOrNone step
        (text (visibilityText visibility ++ "struct " ++ name ++ " \x7b") ++
          blockLines (fields.map fun f => typedDoc rt f ++ text ",")) ++
      text "\x7d"
  | .inherent type functions => implDoc rt (text type) functions
  | .implementation trait type functions =>
    implDoc rt (text (pathText trait) ++ space ++ text ("for " ++ type)) functions
  | .function f => f.doc rt

def page : Layout.Page := ⟨89, 60⟩

def Unit.layout (u : Unit) : String :=
  (allOrNone 0 (concat (u.items.map fun item => item.doc u.runtime ++ hardBreak))).render page

end Code
end TraitClient
