import TraitClient.Text.Utf8

/-!
# Lossy UTF-16

Decoding that never fails: a surrogate without its partner becomes a replacement character, and so
does what is left over at the end.
-/
namespace TraitClient.Text

inductive ByteOrder
  | little
  | big
  deriving Repr, DecidableEq

def ByteOrder.unit (order : ByteOrder) (first second : UInt8) : Nat :=
  match order with
  | .little => second.toNat * 256 + first.toNat
  | .big => first.toNat * 256 + second.toNat

/-- The code units, and whether a byte is left over. -/
def units (order : ByteOrder) : List UInt8 → List Nat × Bool
  | [] => ([], false)
  | [_] => ([], true)
  | a :: b :: rest =>
    let (more, odd) := units order rest
    (order.unit a b :: more, odd)

/-- Decodes units; `lead` is a first half whose partner comes next. -/
def decodeUnits (odd : Bool) : Option Nat → List Nat → List Char
  | none, [] => if odd then [replacement] else []
  | some _, [] => [replacement]
  | some high, u :: rest =>
    if 0xDC00 ≤ u ∧ u < 0xE000 then
      Char.ofNat (0x10000 + (high - 0xD800) * 0x400 + (u - 0xDC00)) :: decodeUnits odd none rest
    else if 0xD800 ≤ u ∧ u < 0xDC00 then replacement :: decodeUnits odd (some u) rest
    else replacement :: Char.ofNat u :: decodeUnits odd none rest
  | none, u :: rest =>
    if 0xD800 ≤ u ∧ u < 0xDC00 then decodeUnits odd (some u) rest
    else if 0xDC00 ≤ u ∧ u < 0xE000 then replacement :: decodeUnits odd none rest
    else Char.ofNat u :: decodeUnits odd none rest

def decodeUtf16 (order : ByteOrder) (bytes : List UInt8) : List Char :=
  let (us, odd) := units order bytes
  decodeUnits odd none us

end TraitClient.Text
