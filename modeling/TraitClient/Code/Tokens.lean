import TraitClient.Anchor
import TraitClient.Code.Syntax
import TraitClient.Source.Literal

/-!
# Generated code as tokens
-/
namespace TraitClient

open Source (Tokens TokenTree)

namespace Code

def ident (name : String) : TokenTree := .ident name

def op (text : String) : Tokens := Tokens.operator text

def stringToken (s : String) : TokenTree := .literal (Source.Literal.quote s)

def parens (body : Tokens) : TokenTree := .group .parenthesis body

def braces (body : Tokens) : TokenTree := .group .brace body

def brackets (body : Tokens) : TokenTree := .group .bracket body

def separated (separator : Tokens) : List Tokens → Tokens
  | [] => []
  | [t] => t
  | t :: rest => t ++ separator ++ separated separator rest

def commaSeparated (items : List Tokens) : Tokens := separated (op ",") items

def pathSegments (path : String) : List String := splitPath (withoutLeadingColons path)

def isGlobalPath (path : String) : Bool := "::".toList.isPrefixOf path.toList

def pathTokens (path : String) : Tokens :=
  (if isGlobalPath path then op "::" else []) ++
    separated (op "::") ((pathSegments path).map fun s => [ident s])

def lifetimeTokens (name : String) : Tokens := [.punct '\'' true, ident name]

end Code

mutual

/-- An optional type is written in full, so that the unit does not depend on what `Option` means in
the module that includes it. -/
def TypeRef.tokens : TypeRef → Tokens
  | ⟨qualifiedName, path, arguments, nullable, byRef, lifetime⟩ =>
    let reference : Tokens :=
      if byRef then
        Code.op "&" ++ (match lifetime with
          | some l => Code.lifetimeTokens l
          | none => [])
      else []
    let base : Tokens :=
      if path == "()" then [Code.parens []]
      else if qualifiedName == sliceName then [Code.brackets (TypeRef.firstTokens arguments)]
      else if arguments.isEmpty then Code.pathTokens path
      else Code.pathTokens path ++ Code.op "<" ++ TypeRef.listTokens arguments ++ Code.op ">"
    if nullable then
      Code.pathTokens "::core::option::Option" ++ Code.op "<" ++ reference ++ base ++ Code.op ">"
    else reference ++ base

def TypeRef.firstTokens : List TypeRef → Tokens
  | [] => []
  | t :: _ => t.tokens

def TypeRef.listTokens : List TypeRef → Tokens
  | [] => []
  | [t] => t.tokens
  | t :: rest => t.tokens ++ Code.op "," ++ TypeRef.listTokens rest

end

namespace Code

def runtimeTokens (runtime : Source.PathExpr) (segments : List String) : Tokens :=
  runtime.tokens ++ segments.flatMap fun s => op "::" ++ [ident s]

mutual

def Expr.tokens (rt : Source.PathExpr) : Expr → Tokens
  | .var n => [ident n]
  | .string s => [stringToken s]
  | .unit => [parens []]
  | .runtime segments => runtimeTokens rt segments
  | .associated type name => [ident type] ++ op "::" ++ [ident name]
  | .field target name => target.tokens rt ++ op "." ++ [ident name]
  | .construct fields =>
    [ident "Self", braces (commaSeparated (fields.map fun f => [ident f]))]
  | .pair first second => [parens (first.tokens rt ++ op "," ++ second.tokens rt)]
  | .singleton element => [brackets (element.tokens rt)]
  | .borrow target => op "&" ++ target.tokens rt
  | .call function arguments => function.tokens rt ++ [parens (Expr.listTokens rt arguments)]
  | .method receiver name arguments =>
    receiver.tokens rt ++ op "." ++ [ident name, parens (Expr.listTokens rt arguments)]
  | .await target => target.tokens rt ++ op "." ++ [ident "await"]
  | .propagate target => target.tokens rt ++ op "?"
  | .format template arguments =>
    [ident "format"] ++ op "!" ++
      [parens ([stringToken template] ++ op "," ++ Expr.listTokens rt arguments)]
  | .closure parameter body => op "|" ++ [ident parameter] ++ op "|" ++ body.tokens rt

def Expr.listTokens (rt : Source.PathExpr) : List Expr → Tokens
  | [] => []
  | [e] => e.tokens rt
  | e :: rest => e.tokens rt ++ op "," ++ Expr.listTokens rt rest

end

def someTokens (bound : String) : Tokens := [ident "Some", parens [ident bound]]

mutual

def Statement.tokens (rt : Source.PathExpr) : Statement → Tokens
  | .letValue isMut name value =>
    [ident "let"] ++ (if isMut then [ident "mut"] else []) ++ [ident name] ++ op "=" ++
      value.tokens rt ++ op ";"
  | .letPair first second value =>
    [ident "let", parens ([ident first] ++ op "," ++ [ident second])] ++ op "=" ++
      value.tokens rt ++ op ";"
  | .assign name value => [ident name] ++ op "=" ++ value.tokens rt ++ op ";"
  | .forEach bound source body =>
    [ident "for", ident bound, ident "in"] ++ source.tokens rt ++
      [braces (Statement.listTokens rt body)]
  | .ifSome bound source body =>
    [ident "if", ident "let"] ++ someTokens bound ++ op "=" ++ source.tokens rt ++
      [braces (Statement.listTokens rt body)]
  | .run e => e.tokens rt ++ op ";"
  | .result e => e.tokens rt

def Statement.listTokens (rt : Source.PathExpr) : List Statement → Tokens
  | [] => []
  | s :: rest => s.tokens rt ++ Statement.listTokens rt rest

end

def CodeType.tokens (rt : Source.PathExpr) : CodeType → Tokens
  | .model t => t.tokens
  | .selfType => [ident "Self"]
  | .named name => [ident name]
  | .runtime name => runtimeTokens rt [name]
  | .runtimeReference name => op "&" ++ runtimeTokens rt [name]

def visibilityTokens : Visibility → Tokens
  | .everywhere => [ident "pub"]
  | .crateOnly => [ident "pub", parens [ident "crate"]]

def attributeTokens (content : Tokens) : Tokens := op "#" ++ [brackets content]

def docTokens (text : String) : Tokens :=
  attributeTokens ([ident "doc"] ++ op "=" ++ [stringToken text])

def typedTokens (rt : Source.PathExpr) (p : String × CodeType) : Tokens :=
  [ident p.1] ++ op ":" ++ p.2.tokens rt

def Function.tokens (rt : Source.PathExpr) (f : Function) : Tokens :=
  let parameters := commaSeparated (f.parameters.map (typedTokens rt))
  (match f.comment with
    | some text => docTokens text
    | none => []) ++
    (if f.allowsUnused then attributeTokens [ident "allow", parens [ident "unused_variables"]]
      else []) ++
    (match f.visibility with
    | some v => visibilityTokens v
    | none => []) ++
    (if f.isAsync then [ident "async"] else []) ++
    [ident "fn", ident f.name,
      parens (if f.takesSelf then op "&" ++ [ident "self"] ++ op "," ++ parameters
        else parameters)] ++
    op "->" ++ f.output.tokens rt ++ [braces (Statement.listTokens rt f.body)]

def Item.tokens (rt : Source.PathExpr) : Item → Tokens
  | .struct comment visibility name fields =>
    docTokens comment ++ visibilityTokens visibility ++
      [ident "struct", ident name, braces (fields.flatMap fun f => typedTokens rt f ++ op ",")]
  | .inherent type functions =>
    [ident "impl", ident type, braces (functions.flatMap (·.tokens rt))]
  | .implementation trait type functions =>
    [ident "impl"] ++ pathTokens trait ++
      [ident "for", ident type, braces (functions.flatMap (·.tokens rt))]
  | .function f => f.tokens rt

def Unit.tokens (u : Unit) : Tokens := u.items.flatMap (·.tokens u.runtime)

end Code
end TraitClient
