import TraitClient.Dump.Format
import TraitClient.Generation.Generator

/-!
# Command-line arguments

Options take a value, behind a blank or an equals sign or, in the short form, directly.  Flags take
none, and short ones can be joined.  Everything behind `--` is a plain argument, of which there is
one: the source directory.
-/
namespace TraitClient

inductive UsageError
  | unknownArgument
  | invalidValue
  | argumentConflict
  | tooManyValues
  | missingRequiredArgument
  | displayHelp
  | displayVersion
  deriving Repr, DecidableEq

namespace CommandLine

inductive Setting
  | sourceDirectory
  | outDirectory
  | attributeNamespace
  | runtimePath
  | dumpModel
  deriving Repr, DecidableEq

inductive Flag
  | keepGoing
  | cargo
  | verbose
  | help
  | version
  deriving Repr, DecidableEq

inductive Name
  | setting (s : Setting)
  | flag (f : Flag)
  deriving Repr, DecidableEq

def longNames : List (String × Name) :=
  [("out-dir", .setting .outDirectory), ("namespace", .setting .attributeNamespace),
    ("runtime-path", .setting .runtimePath), ("dump-model", .setting .dumpModel),
    ("keep-going", .flag .keepGoing), ("cargo", .flag .cargo), ("verbose", .flag .verbose),
    ("help", .flag .help), ("version", .flag .version)]

def shortNames : List (Char × Name) :=
  [('o', .setting .outDirectory), ('v', .flag .verbose), ('h', .flag .help),
    ('V', .flag .version)]

def longName? (name : String) : Option Name :=
  (longNames.find? fun entry => entry.1 == name).map (·.2)

def shortName? (c : Char) : Option Name :=
  (shortNames.find? fun entry => entry.1 == c).map (·.2)

/-- Whether a setting takes a value.  Paths of files are not empty; whether other paths are paths is
found out later. -/
def Setting.accepts (s : Setting) (value : String) : Bool :=
  match s with
  | .sourceDirectory => !value.isEmpty
  | .outDirectory => !value.isEmpty
  | .attributeNamespace => true
  | .runtimePath => true
  | .dumpModel => (DumpFormat.ofArgument? value).isSome

/-- An argument whose value has been read but not looked at, or is still to come. -/
structure Pending where
  setting : Setting
  value : Option String

structure Parsing where
  values : List (Setting × String)
  flags : List Flag
  pending : Option Pending
  hasPlain : Bool

namespace Parsing

def start : Parsing := ⟨[], [], none, false⟩

def value? (p : Parsing) (s : Setting) : Option String :=
  (p.values.find? fun entry => entry.1 = s).map (·.2)

def awaitsValue (p : Parsing) : Bool :=
  match p.pending with
  | some ⟨_, none⟩ => true
  | _ => false

def store (p : Parsing) (s : Setting) (value : String) : Except UsageError Parsing :=
  if (p.value? s).isSome then .error .argumentConflict
  else if !s.accepts value then .error .invalidValue
  else .ok { p with values := p.values ++ [(s, value)] }

/-- Looks at the pending argument, which needs a value by now. -/
def settle (p : Parsing) : Except UsageError Parsing :=
  match p.pending with
  | none => .ok p
  | some ⟨_, none⟩ => .error .invalidValue
  | some ⟨s, some value⟩ => { p with pending := none }.store s value

def takeSetting (p : Parsing) (s : Setting) (attached : Option String) :
    Except UsageError Parsing := do
  let p ← p.settle
  match attached with
  | some value => p.store s value
  | none => .ok { p with pending := some ⟨s, none⟩ }

def takeFlag (p : Parsing) (f : Flag) : Except UsageError Parsing := do
  let p ← p.settle
  match f with
  | .help => .error .displayHelp
  | .version => .error .displayVersion
  | f => if p.flags.contains f then .error .argumentConflict else .ok { p with flags := f :: p.flags }

def takePlain (p : Parsing) (value : String) : Except UsageError Parsing :=
  if p.hasPlain then .error .unknownArgument
  else do
    let p ← p.settle
    .ok { p with pending := some ⟨.sourceDirectory, some value⟩, hasPlain := true }

def takeLong (p : Parsing) (text : List Char) : Except UsageError Parsing :=
  let name := String.ofList (text.takeWhile (· != '='))
  let attached := match text.dropWhile (· != '=') with
    | '=' :: value => some (String.ofList value)
    | _ => none
  match longName? name, attached with
  | none, _ => .error .unknownArgument
  | some (.setting s), attached => p.takeSetting s attached
  | some (.flag _), some _ => .error .tooManyValues
  | some (.flag f), none => p.takeFlag f

def takeShort (p : Parsing) : List Char → Except UsageError Parsing
  | [] => .ok p
  | c :: rest =>
    match shortName? c with
    | none => .error .unknownArgument
    | some (.flag f) =>
      match p.takeFlag f with
      | .error e => .error e
      | .ok p => takeShort p rest
    | some (.setting s) =>
      p.takeSetting s <| match rest with
        | [] => none
        | '=' :: value => some (String.ofList value)
        | value => some (String.ofList value)

/-- An argument that is no option: the value that the last one awaits, or the plain argument. -/
def takeWord (p : Parsing) (word : String) : Except UsageError Parsing :=
  match p.pending with
  | some ⟨s, none⟩ => .ok { p with pending := some ⟨s, some word⟩ }
  | _ => p.takePlain word

def takeAll (p : Parsing) : List String → Except UsageError Parsing
  | [] => .ok p
  | word :: rest =>
    match word.toList with
    | ['-', '-'] => rest.foldlM takePlain p
    | '-' :: '-' :: long => do takeAll (← p.takeLong long) rest
    | '-' :: c :: short => do takeAll (← p.takeShort (c :: short)) rest
    | _ => do takeAll (← p.takeWord word) rest

end Parsing
end CommandLine

open CommandLine

structure Arguments where
  sourceDirectory : String
  outDirectory : Option String
  attributeNamespace : String
  runtimePath : String
  keepGoing : Bool
  dumpModel : Option DumpFormat
  cargo : Bool
  verbose : Bool
  deriving Repr, DecidableEq

structure Environment where
  outDirectory : Option String
  attributeNamespace : Option String
  deriving Repr, DecidableEq

namespace Arguments

def valueOr (p : Parsing) (s : Setting) (environment : Option String) :
    Except UsageError (Option String) :=
  match p.value? s, environment with
  | some value, _ => .ok (some value)
  | none, some value => if s.accepts value then .ok (some value) else .error .invalidValue
  | none, none => .ok none

/-- The arguments of a command line.  The source directory is needed, and the output directory too
unless the model is dumped. -/
def parse (environment : Environment) (words : List String) : Except UsageError Arguments := do
  let p ← (← Parsing.start.takeAll words).settle
  let outDirectory ← valueOr p .outDirectory environment.outDirectory
  let attributeNamespace ← valueOr p .attributeNamespace environment.attributeNamespace
  let dumpModel := (p.value? .dumpModel).bind DumpFormat.ofArgument?
  let defaults : Settings := {}
  match p.value? .sourceDirectory with
  | none => .error .missingRequiredArgument
  | some sourceDirectory =>
    if outDirectory.isNone && dumpModel.isNone then .error .missingRequiredArgument
    else
      .ok
        { sourceDirectory
          outDirectory
          attributeNamespace := attributeNamespace.getD defaults.attributeNamespace
          runtimePath := (p.value? .runtimePath).getD defaults.runtimePath
          keepGoing := p.flags.contains .keepGoing
          dumpModel
          cargo := p.flags.contains .cargo
          verbose := p.flags.contains .verbose }

/-- The settings of a generator; the output directory is never scanned. -/
def settings (a : Arguments) : Settings :=
  { attributeNamespace := a.attributeNamespace
    runtimePath := a.runtimePath
    failFast := !a.keepGoing
    cargoDirectives := a.cargo
    exclude := a.outDirectory.toList }

end Arguments
end TraitClient
