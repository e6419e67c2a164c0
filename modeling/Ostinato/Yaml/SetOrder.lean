import Ostinato.Yaml.Value

/-!
# The order of a set

A set of numbers lists its members by their places in a table. The residue of a number modulo a
Mersenne prime says where it goes. If that place is taken it tries the next ones, as far as a short
run of them fits into the table, and then goes elsewhere: to a place that depends on the rest of the
residue's digits, and that comes to every place in the end. Other sets list their members as they
were written.
-/

namespace Ostinato.Yaml.SetOrder

def prime : Nat := Nat.pow 2 61 - 1

/-- The residue of a number, as a word of sixty-four bits. Minus one has the residue of minus
two. -/
def word (neg : Bool) (residue : Nat) : Nat :=
  if !neg || residue == 0 then residue
  else Nat.pow 2 64 - (if residue == 1 then 2 else residue)

def infinite : Nat := 314159

/-- The residue of a number. The unit of finite numbers is `2 ^ -1074`, which is `2 ^ 24` modulo the
prime. -/
def residue? : Value → Option Nat
  | .bool b => some (if b then 1 else 0)
  | .int n => some (word (n < 0) (n.natAbs % prime))
  | .real (.fin neg mag) => some (word neg (mag * Nat.pow 2 24 % prime))
  | .real (.inf neg) => some (word neg infinite)
  | _ => none

/-- The size of the table for so many members: a power of two, more than twice as much. -/
def tableSize (count : Nat) : Nat :=
  if count < 5 then 8 else Nat.pow 2 (Nat.log2 (2 * count) + 1)

/-- How many places in a row are tried. -/
def runLength : Nat := 10

abbrev Table := Array (Option Value)

def Table.isFree (t : Table) (i : Nat) : Bool :=
  match t[i]? with
  | some none => true
  | _ => false

/-- The place for a member, looked for from `i` on. -/
def place (t : Table) : Nat → Nat → Nat → Nat
  | 0, i, _ => i
  | fuel + 1, i, digits =>
    let run := if i + runLength ≤ t.size then runLength else 1
    match (List.range' i run).find? t.isFree with
    | some j => j
    | none =>
      let digits := digits / 32
      place t fuel ((5 * i + 1 + digits) % t.size) digits

def insert (t : Table) (member : Value) (residue : Nat) : Table :=
  t.setIfInBounds (place t (t.size + 16) (residue % t.size) residue) (some member)

def arrange (members : List Value) : List Value :=
  match members.mapM residue? with
  | none => members
  | some residues =>
    let table : Table := Array.replicate (tableSize members.length) none
    let table := (members.zip residues).foldl (fun t (v, r) => insert t v r) table
    table.toList.filterMap id

end Ostinato.Yaml.SetOrder
