import TraitClient.CommandLine.Command

/-!
# The program

Reads the files that a command line speaks of into a tree, runs the command on it, and brings the
disk in line with the tree that comes out.
-/
namespace TraitClient.Program

def absolute (place : Location) : String := "/" ++ "/".intercalate place

def target? (place : Location) : IO (Option Location) := do
  match ← (IO.FS.realPath (absolute place)).toBaseIO with
  | .ok real => return some (FileTree.steps real.toString)
  | .error _ => return none

/-- Reads what is at a place, with everything below it.  Links are resolved, and what they lead to
is read as well. -/
partial def load (t : FileTree) (place : Location) : IO FileTree := do
  let some target ← target? place | return t
  let real ← IO.FS.realPath (absolute target)
  if target != place then
    let t := t.put place (.link (absolute target))
    if (t.get? target).isSome then return t else load t target
  else if ← real.isDir then
    let t := if place.isEmpty then t else t.put place .directory
    (← real.readDir).foldlM (fun t entry => load t (place ++ [entry.fileName])) t
  else
    let content ← IO.FS.readBinFile real
    return t.put place (.file content.toList)

def loadAbove (t : FileTree) (place : Location) : IO FileTree := do
  let mut t := t
  for n in [1:place.length] do
    let above := place.take n
    if (t.get? above).isNone then
      if let some target ← target? above then
        t := t.put above (if target == above then .directory else .link (absolute target))
  return t

def loadPath (t : FileTree) (path : String) : IO FileTree := do
  let place := t.start path t.working ++ (FileTree.steps path).filter (· != ".")
  let t ← loadAbove t place
  match ← target? place with
  | some target => load (← loadAbove t target) place
  | none => return t

/-- Writes what is new in a tree, and removes the files that it no longer has. -/
def store (old new : FileTree) : IO Unit := do
  for (place, entry) in new.entries do
    if old.get? place != some entry then
      match entry with
      | .directory => IO.FS.createDirAll (absolute place)
      | .file content => IO.FS.writeBinFile (absolute place) ⟨content.toArray⟩
      | .link _ => pure ()
  for (place, _) in old.entries do
    if (new.get? place).isNone then IO.FS.removeFile (absolute place)

def levelText : LogLevel → String
  | .info => "INFO"
  | .warn => "WARN"

def run (words : List String) : IO UInt32 := do
  let environment : Environment :=
    { outDirectory := ← IO.getEnv "CLIENT_FROM_SOURCE_OUT_DIR"
      attributeNamespace := ← IO.getEnv "CLIENT_FROM_SOURCE_NAMESPACE" }
  let working := FileTree.steps (← IO.currentDir).toString
  let paths := match Arguments.parse environment words with
    | .ok a => a.sourceDirectory :: a.outDirectory.toList
    | .error _ => []
  let old ← paths.foldlM loadPath (FileTree.fresh working)
  let result := CommandLine.runProgram environment words old
  store old result.tree
  for line in result.log do
    IO.eprintln (levelText line.level ++ " " ++ line.text)
  for line in result.printed do
    IO.println line
  match result.error with
  | some e => IO.eprintln ("Error: " ++ e)
  | none => pure ()
  return UInt32.ofNat result.exitCode

end TraitClient.Program

def main (words : List String) : IO UInt32 := TraitClient.Program.run words
