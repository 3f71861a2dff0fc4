import TraitClient.Code.Syntax

/-!
# Runs of generated code

What generated code does is the calls that it makes on the runtime.  A value that the runtime made
is known by the call that made it and by the calls on it since, so that nothing has to be known of
the runtime itself, except which texts values have and which calls succeed.
-/
namespace TraitClient.Code

/-! ## Values -/

inductive Data (α : Type)
  | atom (a : α)
  | list (elements : List (Data α))
  | map (entries : List (Data α × Data α))

inductive Value (α : Type)
  | data (d : Data α)
  | absent
  | present (d : Data α)
  | text (s : String)
  | unit
  | pair (first second : Value α)
  | list (elements : List (Value α))
  /-- A path below the runtime module that is no call. -/
  | path (segments : List String)
  | context
  | client
  | url (path : Value α)
  /-- What a call made, and the calls on it since. -/
  | object (origin : String × List (Value α)) (calls : List (String × List (Value α)))
  | future (call : String × List (Value α))
  /-- What a call that can fail gives if it succeeds. -/
  | outcome (call : String × List (Value α)) (value : Value α)
  | done (value : Value α)

abbrev Call (α : Type) := String × List (Value α)

structure Runtime (α : Type) where
  /-- `to_string`. -/
  text : Data α → String
  succeeds : Call α → Bool

/-- A run is stuck where code has no meaning, and ends where `?` meets a failure. -/
inductive Stop (α : Type)
  | stuck
  | failed (call : Call α)

/-- The requests that a run sends, and how it ends. -/
structure Run (α β : Type) where
  sent : List (Value α)
  result : Except (Stop α) β

namespace Run

variable {α β γ : Type}

instance : Monad (Run α) where
  pure b := ⟨[], .ok b⟩
  bind x f :=
    match x.result with
    | .error stop => ⟨x.sent, .error stop⟩
    | .ok b => ⟨x.sent ++ (f b).sent, (f b).result⟩

def stop (s : Stop α) : Run α β := ⟨[], .error s⟩

def ofOption : Option β → Run α β
  | some b => pure b
  | none => stop .stuck

theorem pure_bind (b : β) (f : β → Run α γ) : pure b >>= f = f b := rfl

@[simp] theorem stop_bind (s : Stop α) (f : β → Run α γ) : stop s >>= f = stop s := rfl

@[simp] theorem ofOption_some (b : β) : (ofOption (some b) : Run α β) = pure b := rfl

theorem bind_pure (x : Run α β) : x >>= pure = x := by
  cases x with
  | mk sent result =>
    cases result with
    | error s => rfl
    | ok b =>
      change (⟨sent ++ [], .ok b⟩ : Run α β) = ⟨sent, .ok b⟩
      rw [List.append_nil]

theorem bind_assoc {δ : Type} (x : Run α β) (f : β → Run α γ) (g : γ → Run α δ) :
    x >>= f >>= g = x >>= fun b => f b >>= g := by
  cases x with
  | mk sent result =>
    cases result with
    | error s => rfl
    | ok b =>
      cases hBelow : f b with
      | mk sentBelow resultBelow =>
        cases resultBelow with
        | error s => simp [Bind.bind, hBelow]
        | ok c => simp [Bind.bind, hBelow, List.append_assoc]

instance : LawfulMonad (Run α) :=
  LawfulMonad.mk' (Run α) bind_pure pure_bind bind_assoc

end Run

/-! ## Scopes -/

/-- A name as the language tells it from others: a raw name is the name behind its mark. -/
def identifier (name : String) : String :=
  match name.toList with
  | 'r' :: '#' :: rest => String.ofList rest
  | _ => name

structure Local (α : Type) where
  name : String
  isMut : Bool
  value : Value α

/-- Variables, innermost first. -/
abbrev Scope (α : Type) := List (Local α)

namespace Scope

variable {α : Type}

def lookup? (scope : Scope α) (name : String) : Option (Value α) :=
  (scope.find? fun l => l.name == identifier name).map (·.value)

def bind (name : String) (isMut : Bool) (v : Value α) (scope : Scope α) : Scope α :=
  ⟨identifier name, isMut, v⟩ :: scope

def assign? (name : String) (v : Value α) : Scope α → Option (Scope α)
  | [] => none
  | l :: rest =>
    if l.name == identifier name then
      if l.isMut then some ({ l with value := v } :: rest) else none
    else (assign? name v rest).map (l :: ·)

/-- What is left of a scope when a block inside of another scope ends. -/
def leave (outer inner : Scope α) : Scope α := inner.drop (inner.length - outer.length)

end Scope

/-! ## Format strings -/

/-- The text of a format string, if all of its arguments are used up and none is missing. -/
def fill? : List Char → List String → Option (List Char)
  | [], [] => some []
  | [], _ :: _ => none
  | '\x7b' :: '\x7b' :: rest, arguments => (fill? rest arguments).map ('\x7b' :: ·)
  | '\x7d' :: '\x7d' :: rest, arguments => (fill? rest arguments).map ('\x7d' :: ·)
  | '\x7b' :: '\x7d' :: rest, a :: arguments => (fill? rest arguments).map (a.toList ++ ·)
  | c :: rest, arguments =>
    if c = '\x7b' ∨ c = '\x7d' then none else (fill? rest arguments).map (c :: ·)

/-! ## Calls -/

section

variable {α : Type} (rt : Runtime α)

def Value.items? : Value α → Option (List (Value α))
  | .data (.list elements) => some (elements.map .data)
  | .data (.map entries) => some (entries.map fun e => .pair (.data e.1) (.data e.2))
  | .absent => some []
  | .present d => some [.data d]
  | .list elements => some elements
  | _ => none

/-- Methods that give the object back with one more call on it. -/
def builderMethods (origin : String) : List String :=
  if origin = "request" then ["header", "query", "json", "form", "multipart"]
  else if origin = "Form::new" then ["part", "text"]
  else []

/-- Methods that change the object in place. -/
def mutatingMethods (origin : String) : List String :=
  if origin = "JsonFields::new" ∨ origin = "FormFields::new" then ["insert", "extend"] else []

def canFail (origin : String) : Bool := origin = "JsonFields::new"

def iterator? (target : Value α) (name : String) (arguments : List (Value α)) :
    Option (Value α) :=
  match name, arguments with
  | "iter", [] => target.items?.map .list
  | "into_iter", [] => target.items?.map .list
  | "flatten", [] => do
    let items ← target.items?
    let parts ← items.mapM Value.items?
    some (.list parts.flatten)
  | _, _ => none

def method? (target : Value α) (name : String) (arguments : List (Value α)) :
    Option (Value α) :=
  match target with
  | .object origin calls =>
    if (builderMethods origin.1).contains name then
      some (.object origin (calls ++ [(name, arguments)]))
    else none
  | .context =>
    match name, arguments with
    | "endpoint", [path] => some (.outcome ("endpoint", [path]) (.pair .client (.url path)))
    | _, _ => none
  | .client =>
    match name, arguments with
    | "request", [verb, url] => some (.object ("request", [verb, url]) [])
    | _, _ => none
  | .data d =>
    match name, arguments with
    | "to_string", [] => some (.text (rt.text d))
    | _, _ => iterator? (.data d) name arguments
  | v => iterator? v name arguments

def function? (function : Expr) (arguments : List (Value α)) : Option (Value α) :=
  match function, arguments with
  | .runtime [type, "new"], [] => some (.object (type ++ "::new", []) [])
  | .runtime [name], [v] => some (.future (name, [v]))
  | .var "Ok", [v] => some (.done v)
  | _, _ => none

/-- Sends the request if the call is one that sends; its value is known by the call. -/
def await (v : Value α) : Run α (Value α) :=
  match v with
  | .future call =>
    ⟨if call.1 = "send" then call.2 else [], .ok (.outcome call (.object call []))⟩
  | _ => Run.stop .stuck

def propagate (v : Value α) : Run α (Value α) :=
  match v with
  | .outcome call value => if rt.succeeds call then pure value else Run.stop (.failed call)
  | _ => Run.stop .stuck

def displayed? : Value α → Option String
  | .data d => some (rt.text d)
  | .text s => some s
  | _ => none

/-! ## Expressions and statements -/

mutual

def eval (scope : Scope α) : Expr → Run α (Value α)
  | .var name => Run.ofOption (scope.lookup? name)
  | .string s => pure (.text s)
  | .unit => pure .unit
  | .runtime segments => pure (.path segments)
  | .field (.var "self") "context" => pure .context
  | .pair first second => do
    let a ← eval scope first
    let b ← eval scope second
    pure (.pair a b)
  | .singleton element => do
    let v ← eval scope element
    pure (.list [v])
  | .borrow target => eval scope target
  | .call function arguments => do
    let vs ← evalAll scope arguments
    Run.ofOption (function? function vs)
  | .method receiver "flat_map" [f] => do
    let v ← eval scope receiver
    let items ← Run.ofOption v.items?
    let parts ← items.mapM (apply scope f)
    let parts ← Run.ofOption (parts.mapM Value.items?)
    pure (.list parts.flatten)
  | .method receiver name arguments => do
    let v ← eval scope receiver
    let vs ← evalAll scope arguments
    Run.ofOption (method? rt v name vs)
  | .await target => do
    let v ← eval scope target
    await v
  | .propagate target => do
    let v ← eval scope target
    propagate rt v
  | .format template arguments => do
    let vs ← evalAll scope arguments
    let texts ← Run.ofOption (vs.mapM (displayed? rt))
    let s ← Run.ofOption (fill? template.toList texts)
    pure (.text (String.ofList s))
  | _ => Run.stop .stuck

def apply (scope : Scope α) : Expr → Value α → Run α (Value α)
  | .closure parameter body, v => eval (scope.bind parameter false v) body
  | _, _ => Run.stop .stuck

def evalAll (scope : Scope α) : List Expr → Run α (List (Value α))
  | [] => pure []
  | e :: rest => do
    let v ← eval scope e
    let vs ← evalAll scope rest
    pure (v :: vs)

end

/-- A call that changes a variable in place, and whether its failure is passed on. -/
def mutation? : Expr → Option (Bool × String × String × List Expr)
  | .propagate (.method (.var x) name arguments) => some (true, x, name, arguments)
  | .method (.var x) name arguments => some (false, x, name, arguments)
  | _ => none

def mutate (scope : Scope α) (passesOn : Bool) (x name : String) (arguments : List (Value α)) :
    Run α (Scope α) :=
  match scope.lookup? x with
  | some (.object origin calls) =>
    if (mutatingMethods origin.1).contains name && canFail origin.1 == passesOn then
      if canFail origin.1 && !rt.succeeds (name, arguments) then
        Run.stop (.failed (name, arguments))
      else Run.ofOption (scope.assign? x (.object origin (calls ++ [(name, arguments)])))
    else Run.stop .stuck
  | _ => Run.stop .stuck

mutual

def exec (scope : Scope α) : Statement → Run α (Scope α)
  | .letValue isMut name value => do
    let v ← eval rt scope value
    pure (scope.bind name isMut v)
  | .letPair first second value => do
    let v ← eval rt scope value
    match v with
    | .pair a b => pure ((scope.bind first false a).bind second false b)
    | _ => Run.stop .stuck
  | .assign name value => do
    let v ← eval rt scope value
    Run.ofOption (scope.assign? name v)
  | .forEach bound source body => do
    let v ← eval rt scope source
    let items ← Run.ofOption v.items?
    items.foldlM (fun scope item => do
      let inner ← execAll (scope.bind bound false item) body
      pure (scope.leave inner)) scope
  | .ifSome bound source body => do
    let v ← eval rt scope source
    match v with
    | .absent => pure scope
    | .present d =>
      let inner ← execAll (scope.bind bound false (.data d)) body
      pure (scope.leave inner)
    | _ => Run.stop .stuck
  | .run e =>
    match mutation? e with
    | some (passesOn, x, name, arguments) => do
      let vs ← evalAll rt scope arguments
      mutate rt scope passesOn x name vs
    | none => do
      let _ ← eval rt scope e
      pure scope
  | .result _ => Run.stop .stuck

def execAll (scope : Scope α) : List Statement → Run α (Scope α)
  | [] => pure scope
  | s :: rest => do
    let scope ← exec scope s
    execAll scope rest

end

def runBody (scope : Scope α) : List Statement → Run α (Value α)
  | [] => pure .unit
  | [.result e] => eval rt scope e
  | s :: rest => do
    let scope ← exec rt scope s
    runBody scope rest

end

end TraitClient.Code
