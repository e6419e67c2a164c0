import Ostinato.Text.Quoted

/-!
# Bytes in a document

Bytes are written in base sixty-four, four digits for three bytes. Characters that are no digits are
passed over, and so is padding in the first half of a group; padding that fills a group up ends the
text.
-/

namespace Ostinato.Yaml

namespace Base64

def digit? (c : Char) : Option Nat :=
  if 'A' ≤ c && c ≤ 'Z' then some (c.toNat - 'A'.toNat)
  else if 'a' ≤ c && c ≤ 'z' then some (c.toNat - 'a'.toNat + 26)
  else if '0' ≤ c && c ≤ '9' then some (c.toNat - '0'.toNat + 52)
  else if c == '+' then some 62
  else if c == '/' then some 63
  else none

/-- A group under way: its digits so far, their bits that are in no byte yet, and the paddings since
the last digit. -/
structure Group where
  digits : Nat := 0
  bits : Nat := 0
  pads : Nat := 0
  deriving Repr, DecidableEq

/-- The group with one more digit. -/
def Group.push (g : Group) (d : Nat) : Group :=
  { digits := (g.digits + 1) % 4, bits := d % Nat.pow 4 (3 - g.digits) }

/-- The byte that one more digit completes; the first digit of a group completes none. -/
def Group.byte? (g : Group) (d : Nat) : Option UInt8 :=
  if g.digits == 0 then none
  else some (UInt8.ofNat (g.bits * Nat.pow 4 g.digits + d / Nat.pow 4 (3 - g.digits)))

/-- The bytes that a text writes from a group under way; there are none if its last group stays
open. -/
def decodeFrom (g : Group) : List Char → Option (List UInt8)
  | [] => if g.digits == 0 then some [] else none
  | c :: rest =>
    if c == '=' then
      if g.digits < 2 then decodeFrom g rest
      else if 4 ≤ g.digits + g.pads + 1 then some []
      else decodeFrom { g with pads := g.pads + 1 } rest
    else
      match digit? c with
      | none => decodeFrom g rest
      | some d => (decodeFrom (g.push d) rest).map ((g.byte? d).toList ++ ·)

def decode? (cs : List Char) : Option (List UInt8) :=
  if cs.all fun c => c.toNat < 0x80 then decodeFrom {} cs else none

end Base64

/-- A byte as it stands between quotes of the given kind. -/
def escapeByte (quote : Char) (b : UInt8) : List Char :=
  if b < 0x80 then Text.escape quote (Char.ofNat b.toNat)
  else '\\' :: 'x' :: Text.hex 2 b.toNat

def displayBytes (bs : List UInt8) : String :=
  let q := Text.quoteFor (bs.map fun b => Char.ofNat b.toNat)
  String.ofList ('b' :: q :: (bs.flatMap (escapeByte q) ++ [q]))

/-- Bytes as text: those that are no plain characters become one that means nothing. -/
def bytesText (bs : List UInt8) : String :=
  String.ofList (bs.map fun b => if b < 0x80 then Char.ofNat b.toNat else '?')

end Ostinato.Yaml
