import TraitClient.Error
import TraitClient.Annotation.Kind
import TraitClient.Service.RuntimeTypes
import TraitClient.Source.Parser.File

/-!
# Generators

A generator is made of settings whose paths have been read.
-/
namespace TraitClient

structure Settings where
  /-- The path of the crate that declares the attributes. -/
  attributeNamespace : String := "client_from_source"
  /-- The path by which generated code reaches the runtime. -/
  runtimePath : String := "::client_from_source::runtime"
  failFast : Bool := true
  /-- Whether the source of each unit is announced to the build. -/
  cargoDirectives : Bool := false
  exclude : List String := []
  deriving Repr, DecidableEq

structure Generator where
  settings : Settings
  annotations : AnnotationTable
  types : RuntimeTypes
  runtime : Source.PathExpr

namespace Generator

def pathSetting (setting value : String) : Except GenerationError Source.PathExpr :=
  match Source.parsePath? value with
  | some path => .ok path
  | none => .error (.config (.notPath setting value))

def ofSettings (s : Settings) : Except GenerationError Generator := do
  let _ ← pathSetting "namespace" s.attributeNamespace
  let runtime ← pathSetting "runtime path" s.runtimePath
  .ok
    { settings := s
      annotations := .ofNamespace s.attributeNamespace
      types := .ofPath s.runtimePath
      runtime }

end Generator
end TraitClient
