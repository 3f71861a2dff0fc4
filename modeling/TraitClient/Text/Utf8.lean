/-!
# Lossy UTF-8

Decoding that never fails: each longest run of bytes that starts a character and does not finish it,
and each byte that starts none, becomes one replacement character.
-/
namespace TraitClient.Text

def replacement : Char := Char.ofNat 0xFFFD

/-- How many bytes follow a first byte, the bits that it contributes, and the bounds of the byte
behind it. -/
def leadingByte? (b : Nat) : Option (Nat × Nat × Nat × Nat) :=
  if 0xC2 ≤ b ∧ b ≤ 0xDF then some (1, b - 0xC0, 0x80, 0xBF)
  else if b = 0xE0 then some (2, 0, 0xA0, 0xBF)
  else if b = 0xED then some (2, 0x0D, 0x80, 0x9F)
  else if 0xE1 ≤ b ∧ b ≤ 0xEF then some (2, b - 0xE0, 0x80, 0xBF)
  else if b = 0xF0 then some (3, 0, 0x90, 0xBF)
  else if 0xF1 ≤ b ∧ b ≤ 0xF3 then some (3, b - 0xF0, 0x80, 0xBF)
  else if b = 0xF4 then some (3, 4, 0x80, 0x8F)
  else none

/-- Where decoding is inside of a character: the bytes still to come, the bits so far, and the
bounds of the next byte. -/
structure Utf8State where
  missing : Nat
  bits : Nat
  low : Nat
  high : Nat

namespace Utf8State

def between : Utf8State := ⟨0, 0, 0x80, 0xBF⟩

def first (b : Nat) : List Char × Utf8State :=
  if b < 0x80 then ([Char.ofNat b], between)
  else match leadingByte? b with
    | some (missing, bits, low, high) => ([], ⟨missing, bits, low, high⟩)
    | none => ([replacement], between)

def next (s : Utf8State) (b : Nat) : List Char × Utf8State :=
  if s.missing = 0 then first b
  else if s.low ≤ b ∧ b ≤ s.high then
    let bits := s.bits * 64 + (b - 0x80)
    if s.missing = 1 then ([Char.ofNat bits], between)
    else ([], ⟨s.missing - 1, bits, 0x80, 0xBF⟩)
  else
    let (out, s) := first b
    (replacement :: out, s)

def decode (s : Utf8State) : List UInt8 → List Char
  | [] => if s.missing = 0 then [] else [replacement]
  | b :: rest =>
    let (out, s) := s.next b.toNat
    out ++ decode s rest

end Utf8State

def decodeUtf8 (bytes : List UInt8) : List Char := Utf8State.between.decode bytes

end TraitClient.Text
