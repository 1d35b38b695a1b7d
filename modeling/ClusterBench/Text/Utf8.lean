/-!
# UTF-8

Bytes are read as characters; each longest run of bytes that begins a character without completing
one, and each byte that begins none, is one symbol that is no character.
-/

namespace ClusterBench

/-- A character, or bytes that are none. -/
abbrev Symbol := Option Char

namespace Utf8

/-- A character that has begun: how many bytes are to come, the bounds of the next one, and the
bits so far. -/
structure Pending where
  needed : Nat
  lower : Nat
  upper : Nat
  bits : Nat

/-- What the first byte of a character begins: a whole character, a longer one, or nothing. -/
inductive Start
  | whole (c : Char)
  | longer (pending : Pending)
  | nothing

def start (byte : Nat) : Start :=
  if byte < 0x80 then .whole (Char.ofNat byte)
  else if byte < 0xc2 then .nothing
  else if byte < 0xe0 then .longer ⟨1, 0x80, 0xbf, byte - 0xc0⟩
  else if byte = 0xe0 then .longer ⟨2, 0xa0, 0xbf, 0⟩
  else if byte = 0xed then .longer ⟨2, 0x80, 0x9f, 0xd⟩
  else if byte < 0xf0 then .longer ⟨2, 0x80, 0xbf, byte - 0xe0⟩
  else if byte = 0xf0 then .longer ⟨3, 0x90, 0xbf, 0⟩
  else if byte < 0xf4 then .longer ⟨3, 0x80, 0xbf, byte - 0xf0⟩
  else if byte = 0xf4 then .longer ⟨3, 0x80, 0x8f, 4⟩
  else .nothing

def decodeFrom : Option Pending → List UInt8 → List Symbol
  | none, [] => []
  | some _, [] => [none]
  | pending, byte :: bytes =>
    let byte := byte.toNat
    let begin (before : List Symbol) : List Symbol := before ++
      match start byte with
      | .whole c => some c :: decodeFrom none bytes
      | .longer p => decodeFrom (some p) bytes
      | .nothing => none :: decodeFrom none bytes
    match pending with
    | none => begin []
    | some p =>
      if p.lower ≤ byte && byte ≤ p.upper then
        let bits := p.bits * 64 + (byte - 0x80)
        if p.needed = 1 then some (Char.ofNat bits) :: decodeFrom none bytes
        else decodeFrom (some ⟨p.needed - 1, 0x80, 0xbf, bits⟩) bytes
      else begin [none]

def decode (bytes : List UInt8) : List Symbol := decodeFrom none bytes

def decodeLossy (bytes : List UInt8) : String :=
  String.ofList ((decode bytes).map fun symbol => symbol.getD '\uFFFD')

def decode? (bytes : List UInt8) : Option String :=
  ((decode bytes).mapM id).map String.ofList

def encode (text : String) : List UInt8 := text.toUTF8.data.toList

end Utf8

end ClusterBench
