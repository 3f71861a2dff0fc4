import TraitClient.Dump.Document
import TraitClient.Json.Writer
import TraitClient.Yaml.Writer

/-!
# Dumps

The plans of a source tree as a text, for readers and for other tools.
-/
namespace TraitClient

inductive DumpFormat
  | yaml
  | json
  deriving Repr, DecidableEq

namespace DumpFormat

def argument : DumpFormat → String
  | .yaml => "yaml"
  | .json => "json"

def label : DumpFormat → String
  | .yaml => "Yaml"
  | .json => "Json"

def ofArgument? (s : String) : Option DumpFormat := [yaml, json].find? (·.argument == s)

def dump (format : DumpFormat) (plans : List Plan) : String :=
  let document := Json.arr (plans.map Plan.document)
  match format with
  | .yaml => Yaml.text document
  | .json => document.pretty

end DumpFormat
end TraitClient
