import TraitClient.Fault

/-!
# Errors of a generation run
-/
namespace TraitClient

inductive ReadFault
  | unreadable
  | notRust
  deriving Repr, DecidableEq

def ReadFault.message (file : String) : ReadFault → String
  | .unreadable => "Failed to read file: " ++ file
  | .notRust => "Failed to parse Rust syntax in file: " ++ file

inductive EmitFault
  | encodingCount (encodings methods : Nat)
  | notRust
  deriving Repr, DecidableEq

inductive ConfigFault
  | notPath (setting value : String)
  | notDirectory (path : String)
  deriving Repr, DecidableEq

def ConfigFault.message : ConfigFault → String
  | .notPath setting value => setting ++ " '" ++ value ++ "' is not a Rust path"
  | .notDirectory path => "Source path is not a directory: " ++ path

inductive GenerationError
  | validation (violation : Violation)
  | unsupportedPart (interface method parameter typeName : String)
  | parse (file : String) (fault : ReadFault)
  | io (path : String)
  | emit (interface : String) (fault : EmitFault)
  | config (fault : ConfigFault)
  | multiple (errors : List GenerationError)

namespace GenerationError

def message : GenerationError → String
  | .validation v => v.message
  | .unsupportedPart interface method parameter typeName =>
    interface ++ "::" ++ method ++ ": unsupported multipart parameter `" ++ parameter ++ "` (type="
      ++ typeName ++ ")"
  | .parse file fault => "Failed to parse " ++ file ++ ": " ++ fault.message file
  | .io path => "Failed to write output file '" ++ path ++ "'"
  | .emit interface (.encodingCount encodings methods) =>
    "Code generation failed for " ++ interface ++ ": " ++ toString encodings ++ " encodings for "
      ++ toString methods ++ " methods"
  | .emit interface .notRust => "Code generation failed for " ++ interface
  | .config fault => "Invalid configuration: " ++ fault.message
  | .multiple errors => toString errors.length ++ " interfaces failed to generate"

/-- Several errors as one; a single one stays as it is. -/
def ofList? : List GenerationError → Option GenerationError
  | [] => none
  | [e] => some e
  | errors => some (.multiple errors)

end GenerationError

/-! ## Log -/

inductive LogLevel
  | info
  | warn
  deriving Repr, DecidableEq

structure LogLine where
  level : LogLevel
  text : String
  deriving Repr, DecidableEq

/-- A computation that logs and may fail; what was logged before a failure stays. -/
structure Logged (ε α : Type) where
  log : List LogLine
  result : Except ε α

namespace Logged

variable {ε α β : Type}

instance : Monad (Logged ε) where
  pure a := ⟨[], .ok a⟩
  bind x f :=
    match x.result with
    | .error e => ⟨x.log, .error e⟩
    | .ok a =>
      let y := f a
      ⟨x.log ++ y.log, y.result⟩

def ofExcept (r : Except ε α) : Logged ε α := ⟨[], r⟩

def fail (e : ε) : Logged ε α := ⟨[], .error e⟩

def info (text : String) : Logged ε Unit := ⟨[⟨.info, text⟩], .ok ()⟩

def warn (text : String) : Logged ε Unit := ⟨[⟨.warn, text⟩], .ok ()⟩

def lines (log : List LogLine) : Logged ε Unit := ⟨log, .ok ()⟩

end Logged
end TraitClient
