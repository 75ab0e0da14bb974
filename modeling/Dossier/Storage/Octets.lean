/-!
Texts in octets. Octets that are no UTF-8 are read as replacement characters, one for each longest run that
could have begun a character.
-/

namespace Dossier.Octets

def replacement : Char := Char.ofNat 0xFFFD

/-- What may follow a first octet: how many octets, and the range of the next one. -/
structure Lead where
  size : Nat
  low : Nat
  high : Nat

/-- The rule for a first octet above 127, if characters begin with it. -/
def lead? (octet : Nat) : Option Lead :=
  if octet < 0xC2 then none
  else if octet < 0xE0 then some ⟨1, 0x80, 0xBF⟩
  else if octet = 0xE0 then some ⟨2, 0xA0, 0xBF⟩
  else if octet = 0xED then some ⟨2, 0x80, 0x9F⟩
  else if octet < 0xF0 then some ⟨2, 0x80, 0xBF⟩
  else if octet = 0xF0 then some ⟨3, 0x90, 0xBF⟩
  else if octet < 0xF4 then some ⟨3, 0x80, 0xBF⟩
  else if octet = 0xF4 then some ⟨3, 0x80, 0x8F⟩
  else none

/-- The bits that a first octet adds to its character. -/
def leadBits (size octet : Nat) : Nat :=
  match size with
  | 1 => octet - 0xC0
  | 2 => octet - 0xE0
  | _ => octet - 0xF0

/-- Reads octets after `need` more of a character are awaited, the next one between `low` and `high`. -/
def read : (need low high bits : Nat) → List Nat → List Char
  | 0, _, _, _, [] => []
  | _ + 1, _, _, _, [] => [replacement]
  | need, low, high, bits, octet :: rest =>
    let fresh : List Char :=
      if octet < 0x80 then Char.ofNat octet :: read 0 0 0 0 rest
      else match lead? octet with
        | some lead => read lead.size lead.low lead.high (leadBits lead.size octet) rest
        | none => replacement :: read 0 0 0 0 rest
    match need with
    | 0 => fresh
    | more + 1 =>
      if low ≤ octet && octet ≤ high then
        let bits := bits * 64 + (octet - 0x80)
        if more = 0 then Char.ofNat bits :: read 0 0 0 0 rest else read more 0x80 0xBF bits rest
      else replacement :: fresh

/-- The text that the octets spell. -/
def text (octets : List Nat) : String := String.ofList (read 0 0 0 0 octets)

def hexDigits (octet : Nat) : List Char := [Nat.digitChar (octet / 16), Nat.digitChar (octet % 16)]

/-- The octets in hexadecimal digits. -/
def hex (octets : List Nat) : String := String.ofList (octets.flatMap hexDigits)

end Dossier.Octets
