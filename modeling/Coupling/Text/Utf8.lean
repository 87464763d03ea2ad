/-! Bytes are read as characters one after another. Where they are not the beginning of a character, the
longest start of one, or else a single byte, stands for the replacement character. -/
namespace Coupling.Text

/-- A character of which the first bytes are read: their value, how many bytes are missing, and the
range of the next one. -/
structure OpenCharacter where
  value : Nat
  missing : Nat
  low : Nat
  high : Nat

/-- What is read so far, last character first, with `none` for what is no text. -/
structure Decoding where
  read : List (Option Char)
  pending : Option OpenCharacter

namespace Decoding

def emit (d : Decoding) (c : Option Char) : Decoding := ⟨c :: d.read,none⟩

def start (d : Decoding) (b : Nat) : Decoding :=
  if b < 0x80 then d.emit (some (Char.ofNat b))
  else if 0xC2 ≤ b ∧ b ≤ 0xDF then ⟨d.read,some ⟨b % 32,1,0x80,0xBF⟩⟩
  else if 0xE0 ≤ b ∧ b ≤ 0xEF then
    ⟨d.read,some ⟨b % 16,2,if b = 0xE0 then 0xA0 else 0x80,if b = 0xED then 0x9F else 0xBF⟩⟩
  else if 0xF0 ≤ b ∧ b ≤ 0xF4 then
    ⟨d.read,some ⟨b % 8,3,if b = 0xF0 then 0x90 else 0x80,if b = 0xF4 then 0x8F else 0xBF⟩⟩
  else d.emit none

def step (d : Decoding) (b : Nat) : Decoding :=
  match d.pending with
  | none => d.start b
  | some c =>
    if c.low ≤ b ∧ b ≤ c.high then
      let value := c.value * 64 + b % 64
      if c.missing = 1 then d.emit (some (Char.ofNat value))
      else ⟨d.read,some ⟨value,c.missing - 1,0x80,0xBF⟩⟩
    else (d.emit none).start b

def finish (d : Decoding) : List (Option Char) :=
  match d.pending with
  | none => d.read.reverse
  | some _ => (none :: d.read).reverse

end Decoding

def decodeBytes (bytes : List UInt8) : List (Option Char) :=
  (bytes.foldl (fun (d : Decoding) b => d.step b.toNat) ⟨[],none⟩).finish

def replacementCharacter : Char := Char.ofNat 0xFFFD

/-- The text that bytes stand for, with replacement characters for what is no text. -/
def decodeLossy (bytes : List UInt8) : String :=
  String.ofList ((decodeBytes bytes).map (·.getD replacementCharacter))

def decode? (bytes : List UInt8) : Option String :=
  let cs := decodeBytes bytes
  if cs.all Option.isSome then some (String.ofList (cs.filterMap id)) else none

def encode (s : String) : List UInt8 := s.toUTF8.toList

end Coupling.Text
