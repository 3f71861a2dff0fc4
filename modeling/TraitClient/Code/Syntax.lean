import TraitClient.Model
import TraitClient.Source.Syntax

/-!
# Generated code

The part of the language that implementations are written in.  `runtime` paths start at the runtime
module that the code is generated for.
-/
namespace TraitClient.Code

inductive Expr
  | var (name : String)
  | string (s : String)
  | unit
  | runtime (segments : List String)
  /-- `Type::name`. -/
  | associated (type name : String)
  | field (target : Expr) (name : String)
  /-- `Self { a, b }`. -/
  | construct (fields : List String)
  | pair (first second : Expr)
  | singleton (element : Expr)
  | borrow (target : Expr)
  | call (function : Expr) (arguments : List Expr)
  | method (receiver : Expr) (name : String) (arguments : List Expr)
  | await (target : Expr)
  /-- `target?`. -/
  | propagate (target : Expr)
  /-- `format!(template, a, b)`. -/
  | format (template : String) (arguments : List Expr)
  | closure (parameter : String) (body : Expr)

inductive Statement
  | letValue (isMut : Bool) (name : String) (value : Expr)
  | letPair (first second : String) (value : Expr)
  | assign (name : String) (value : Expr)
  | forEach (bound : String) (source : Expr) (body : List Statement)
  /-- `if let Some(bound) = source`. -/
  | ifSome (bound : String) (source : Expr) (body : List Statement)
  | run (e : Expr)
  | result (e : Expr)

inductive CodeType
  | model (t : TypeRef)
  | selfType
  | named (name : String)
  | runtime (name : String)
  | runtimeReference (name : String)

structure Function where
  allowsUnused : Bool
  comment : Option String
  visibility : Option Visibility
  isAsync : Bool
  name : String
  takesSelf : Bool
  parameters : List (String × CodeType)
  output : CodeType
  body : List Statement

inductive Item
  | struct (comment : String) (visibility : Visibility) (name : String)
      (fields : List (String × CodeType))
  | inherent (type : String) (functions : List Function)
  | implementation (trait type : String) (functions : List Function)
  | function (f : Function)

structure Unit where
  runtime : Source.PathExpr
  items : List Item

end TraitClient.Code
