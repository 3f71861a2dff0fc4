import TraitClient.Client.Error

/-!
# Client contexts

A context is a handle to a cell that may hold an installed client with its base URL.  Copies of a
handle share the cell.  Nothing is asked of a client but to be handed out again.
-/
namespace TraitClient

/-- A base URL and a path with one slash between them; either alone if the other is empty. -/
def joinUrl (baseUrl path : String) : String :=
  if baseUrl.isEmpty then path
  else if path.isEmpty then baseUrl
  else
    match baseUrl.toList.getLast? == some '/', path.toList with
    | true, '/' :: rest => baseUrl ++ String.ofList rest
    | true, _ => baseUrl ++ path
    | false, '/' :: _ => baseUrl ++ path
    | false, _ => baseUrl ++ "/" ++ path

/-- What a context holds while a client is installed in it. -/
structure Installed (γ : Type) where
  client : γ
  baseUrl : String
  deriving Repr, DecidableEq

/-- Cells with what is installed in them, and handles that name cells. -/
structure Contexts (γ : Type) where
  cells : List (Option (Installed γ))
  handles : List Nat
  deriving Repr

namespace Contexts

variable {γ : Type}

def fresh : Contexts γ := ⟨[none], [0]⟩

def size (c : Contexts γ) : Nat := c.handles.length

/-- Adds a context with a cell of its own, in which nothing is installed. -/
def new (c : Contexts γ) : Contexts γ := ⟨c.cells ++ [none], c.handles ++ [c.cells.length]⟩

/-- Adds a context that shares the cell of another one. -/
def share (c : Contexts γ) (handle : Nat) : Contexts γ :=
  match c.handles[handle]? with
  | some cell => { c with handles := c.handles ++ [cell] }
  | none => c

def installed? (c : Contexts γ) (handle : Nat) : Option (Installed γ) :=
  (c.handles[handle]?.bind fun cell => c.cells[cell]?).join

def baseUrl? (c : Contexts γ) (handle : Nat) : Option String :=
  (c.installed? handle).map (·.baseUrl)

def setCell (c : Contexts γ) (handle : Nat) (content : Option (Installed γ)) : Contexts γ :=
  match c.handles[handle]? with
  | some cell => { c with cells := c.cells.set cell content }
  | none => c

/-- Installs a client with a base URL in the place of any other. -/
def installWithBaseUrl (c : Contexts γ) (handle : Nat) (client : γ) (baseUrl : String) :
    Contexts γ :=
  c.setCell handle (some ⟨client, baseUrl⟩)

/-- Installs a client that keeps the base URL, which is empty if there was none. -/
def install (c : Contexts γ) (handle : Nat) (client : γ) : Contexts γ :=
  c.installWithBaseUrl handle client ((c.baseUrl? handle).getD "")

/-- Adds a context and installs a client in it. -/
def withClient (c : Contexts γ) (client : γ) (baseUrl : String) : Contexts γ :=
  c.new.installWithBaseUrl c.size client baseUrl

def reset (c : Contexts γ) (handle : Nat) : Contexts γ := c.setCell handle none

def isInstalled (c : Contexts γ) (handle : Nat) : Bool := (c.installed? handle).isSome

def client (c : Contexts γ) (handle : Nat) : Except ClientError γ :=
  match c.installed? handle with
  | some installed => .ok installed.client
  | none => .error .uninitialized

/-- The client that is installed, and the URL of a path below its base URL. -/
def endpoint (c : Contexts γ) (handle : Nat) (path : String) : Except ClientError (γ × String) :=
  match c.installed? handle with
  | some installed => .ok (installed.client, joinUrl installed.baseUrl path)
  | none => .error .uninitialized

end Contexts
end TraitClient
