import TraitClient.Client.Error
import TraitClient.Json.Writer

/-!
# Fields of request bodies

JSON fields form an object with sorted keys, each of which has one value.  Form fields are pairs in
the order in which they came.
-/
namespace TraitClient

/-! ## JSON fields -/

/-- Puts an entry in the place of the one with its key, or where the order of keys wants it. -/
def Json.insertSorted (key : String) (value : Json) :
    List (String × Json) → List (String × Json)
  | [] => [(key, value)]
  | (k, v) :: rest =>
    if key < k then (key, value) :: (k, v) :: rest
    else if key == k then (key, value) :: rest
    else (k, v) :: insertSorted key value rest

mutual

/-- The value with all objects sorted; of two entries with one key the last counts. -/
def Json.sorted : Json → Json
  | .arr items => .arr (sortedItems items)
  | .obj entries => .obj (sortedEntries [] entries)
  | .null => .null
  | .bool b => .bool b
  | .int n => .int n
  | .float x => .float x
  | .str s => .str s

def Json.sortedItems : List Json → List Json
  | [] => []
  | v :: rest => v.sorted :: sortedItems rest

def Json.sortedEntries (done : List (String × Json)) : List (String × Json) → List (String × Json)
  | [] => done
  | (key, v) :: rest => sortedEntries (Json.insertSorted key v.sorted done) rest

end

/-- A value that is put into a field: one that has a JSON form, or one that has none because it holds
a map whose keys are no texts. -/
inductive FieldValue
  | encodable (v : Json)
  | unencodable

def FieldValue.encode : FieldValue → Except ClientError Json
  | .encodable v => .ok v.sorted
  | .unencodable => .error .encode

/-- An object made of single fields, sorted by their keys. -/
structure JsonFields where
  entries : List (String × Json)

namespace JsonFields

def empty : JsonFields := ⟨[]⟩

def put (f : JsonFields) (key : String) (value : Json) : JsonFields :=
  ⟨Json.insertSorted key value f.entries⟩

def insert (f : JsonFields) (key : String) (value : FieldValue) : Except ClientError JsonFields := do
  let v ← value.encode
  .ok (f.put key v)

/-- Inserts the entries of a map up to the first that cannot be encoded, whose error it gives. -/
def extend (f : JsonFields) : List (String × FieldValue) → JsonFields × Option ClientError
  | [] => (f, none)
  | (key, value) :: rest =>
    match f.insert key value with
    | .ok f => extend f rest
    | .error e => (f, some e)

def get? (f : JsonFields) (key : String) : Option Json :=
  (f.entries.find? (·.1 == key)).map (·.2)

def size (f : JsonFields) : Nat := f.entries.length

def isEmpty (f : JsonFields) : Bool := f.entries.isEmpty

def body (f : JsonFields) : String := (Json.obj f.entries).compact

end JsonFields

/-! ## Form fields -/

def positionalText (x : Float) : String :=
  let sign (negative : Bool) : String := if negative then "-" else ""
  match Decimal.Double.ofBits x.toBits.toNat with
  | .nan => "NaN"
  | .infinite negative => sign negative ++ "inf"
  | .zero negative => sign negative ++ "0"
  | .finite negative b => sign negative ++ String.ofList b.shortest.positional

def Json.fieldText : Json → String
  | .str s => s
  | .float x => positionalText x
  | v => v.sorted.compact

def isPlainFormByte (b : UInt8) : Bool :=
  let c := Char.ofNat b.toNat
  c.isAlphanum || c == '*' || c == '-' || c == '.' || c == '_'

def upperHexDigit (n : Nat) : Char := ((Nat.toDigits 16 (n % 16)).headD '0').toUpper

/-- A byte in a form: a space is a plus sign, and other special bytes are hexadecimal. -/
def formByte (b : UInt8) : List Char :=
  if isPlainFormByte b then [Char.ofNat b.toNat]
  else if b = 32 then ['+']
  else ['%', upperHexDigit (b.toNat / 16), upperHexDigit b.toNat]

def formText (s : String) : String := String.ofList (s.toUTF8.toList.flatMap formByte)

structure FormFields where
  pairs : List (String × String)
  deriving Repr, DecidableEq

namespace FormFields

def empty : FormFields := ⟨[]⟩

def insert (f : FormFields) (key : String) (value : Json) : FormFields :=
  ⟨f.pairs ++ [(key, value.fieldText)]⟩

def extend (f : FormFields) (entries : List (String × Json)) : FormFields :=
  entries.foldl (fun f (key, value) => f.insert key value) f

def body (f : FormFields) : String :=
  "&".intercalate (f.pairs.map fun (key, value) => formText key ++ "=" ++ formText value)

end FormFields
end TraitClient
