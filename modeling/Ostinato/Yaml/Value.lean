import Ostinato.Binary64.Decimal
import Ostinato.Text.Number
import Ostinato.Yaml.Bytes
import Ostinato.Yaml.Fault

/-!
# Values of a document

A YAML document holds scalars, lists and mappings, and also sets and lists of pairs. Mappings keep
the order in which their keys first appear, and keys are compared by value across the number types.

A collection may contain itself. It is then a knot: a number and its contents, in which that number
stands for the whole again. Every collection on such a circle has a number of its own.
-/

namespace Ostinato.Yaml

inductive Value where
  | null
  | bool (b : Bool)
  | int (n : Int)
  | real (x : Binary64)
  | text (s : String)
  | bytes (bs : List UInt8)
  | timestamp (t : Timestamp)
  | list (items : List Value)
  | map (entries : List (Value × Value))
  | set (members : List Value)
  | pairs (entries : List (Value × Value))
  /-- A collection that comes back inside itself. -/
  | knot (id : Nat) (contents : Value)
  /-- The knot with this number that stands around. -/
  | back (id : Nat)
  deriving Inhabited

namespace Value

/-! ## Knots -/

mutual

/-- Puts a value for the number of a knot. -/
def substitute (id : Nat) (w : Value) : Value → Value
  | list items => list (substituteItems id w items)
  | map entries => map (substituteEntries id w entries)
  | pairs entries => pairs (substituteEntries id w entries)
  | knot i v => if i == id then knot i v else knot i (substitute id w v)
  | back i => if i == id then w else back i
  | v => v

def substituteItems (id : Nat) (w : Value) : List Value → List Value
  | [] => []
  | v :: rest => substitute id w v :: substituteItems id w rest

def substituteEntries (id : Nat) (w : Value) : List (Value × Value) → List (Value × Value)
  | [] => []
  | (k, v) :: rest => (substitute id w k, substitute id w v) :: substituteEntries id w rest

end

/-- The contents of a knot, with the knot itself where they come back to it. -/
def untie : Value → Value
  | knot i v => substitute i (knot i v) v
  | v => v

/-! ## Text -/

/-- What stands for a collection inside itself. -/
def ellipsis : Value → String
  | map _ => "\x7b...\x7d"
  | _ => "[...]"

def bracketed (first last : String) (parts : List String) : String :=
  first ++ String.intercalate ", " parts ++ last

mutual

def displayIn (around : List (Nat × String)) : Value → String
  | null => "None"
  | bool b => if b then "True" else "False"
  | int n => toString n
  | real x => x.text
  | text s => Text.quoted s
  | bytes bs => displayBytes bs
  | timestamp t => t.display
  | list items => bracketed "[" "]" (displayItems around items)
  | map entries => bracketed "\x7b" "\x7d" (displayEntries around entries)
  | set members =>
    if members.isEmpty then "set()" else bracketed "\x7b" "\x7d" (displayItems around members)
  | pairs entries => bracketed "[" "]" (displayPairs around entries)
  | knot i v =>
    match around.lookup i with
    | some dots => dots
    | none => displayIn ((i, ellipsis v) :: around) v
  | back i => (around.lookup i).getD "..."

def displayItems (around : List (Nat × String)) : List Value → List String
  | [] => []
  | v :: rest => displayIn around v :: displayItems around rest

def displayEntries (around : List (Nat × String)) : List (Value × Value) → List String
  | [] => []
  | (k, v) :: rest =>
    (displayIn around k ++ ": " ++ displayIn around v) :: displayEntries around rest

def displayPairs (around : List (Nat × String)) : List (Value × Value) → List String
  | [] => []
  | (k, v) :: rest =>
    bracketed "(" ")" [displayIn around k, displayIn around v] :: displayPairs around rest

end

def display (v : Value) : String :=
  displayIn [] v

/-- A text or timestamp as it is, and any other value as it is shown. -/
def plain : Value → String
  | text s => s
  | timestamp t => t.text
  | v => v.display

def isTruthy : Value → Bool
  | null => false
  | bool b => b
  | int n => n != 0
  | real x => !x.eq .zero
  | text s => !s.isEmpty
  | bytes bs => !bs.isEmpty
  | timestamp _ => true
  | list items => !items.isEmpty
  | map entries => !entries.isEmpty
  | set members => !members.isEmpty
  | pairs entries => !entries.isEmpty
  | knot .. => true
  | back _ => true

def kindName : Value → String
  | null => "NoneType"
  | bool _ => "bool"
  | int _ => "int"
  | real _ => "float"
  | text _ => "str"
  | bytes _ => "bytes"
  | timestamp t => t.kindName
  | map _ => "dict"
  | set _ => "set"
  | knot _ v => v.kindName
  | list _ | pairs _ | back _ => "list"

/-! ## Keys -/

/-- Truth values are the numbers one and zero. -/
def asInt? : Value → Option Int
  | bool b => some (if b then 1 else 0)
  | int n => some n
  | _ => none

def sameNumber (n : Int) : Binary64 → Bool
  | .fin s m => n * Binary64.one = (if s then -(m : Int) else m)
  | _ => false

/-- Whether two scalars are the same key. A NaN is the same as no value. -/
def sameKey (a b : Value) : Bool :=
  match a, b with
  | null, null => true
  | text s, text t => s == t
  | bytes s, bytes t => s == t
  | timestamp s, timestamp t => s.same t
  | real x, real y => x.eq y
  | real x, v => (v.asInt?.map (sameNumber · x)).getD false
  | v, real y => (v.asInt?.map (sameNumber · y)).getD false
  | v, w =>
    match v.asInt?, w.asInt? with
    | some m, some n => m == n
    | _, _ => false

/-- The value under a text key of some entries. -/
def lookup (entries : List (Value × Value)) (key : String) : Option Value :=
  (entries.find? fun e => e.1.sameKey (text key)).map Prod.snd

/-! ## Conversion to integers -/

inductive IntFault where
  | wrongKind
  /-- A text or bytes that write none, as they are shown. -/
  | malformed (shown : String)
  | overflow (fault : Overflow)
  deriving Repr, DecidableEq

def IntFault.message : IntFault → String
  | wrongKind => "not a number"
  | malformed shown => malformedInteger 10 shown
  | overflow o => o.message

def readInt (s shown : String) : Except IntFault Int :=
  match Text.integer? s with
  | some n => .ok n
  | none => .error (.malformed shown)

/-- The integer that a value stands for: numbers lose their fraction, texts and bytes are read. Of
bytes that cannot be read, the first two hundred are shown. -/
def toInt : Value → Except IntFault Int
  | bool b => .ok (if b then 1 else 0)
  | int n => .ok n
  | real x => x.truncate.mapError .overflow
  | text s => readInt s (Text.quoted s)
  | bytes bs => readInt (bytesText bs) (displayBytes (bs.take 200))
  | _ => .error .wrongKind

end Value

end Ostinato.Yaml
