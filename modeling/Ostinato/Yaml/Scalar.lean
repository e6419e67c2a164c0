import Ostinato.Text.Lower
import Ostinato.Text.Split
import Ostinato.Yaml.Value

/-!
# Scalars and their tags

A scalar without quotes is a truth value, a number, a timestamp or null when it is spelled like one,
and text otherwise. Numbers are written as YAML 1.1 has them: a leading zero makes an integer octal,
and colons divide digits of base sixty. A tag in front of a scalar says what it is instead, and then
it is read as that however it is spelled.
-/

namespace Ostinato.Yaml

inductive Tag where
  | null
  | bool
  | int
  | real
  | text
  | bytes
  | timestamp
  | list
  | map
  | set
  /-- A list of mappings with one entry each, which are the pairs. -/
  | pairs
  /-- The key under which entries of other mappings are merged. -/
  | merge
  /-- The key of a default value, which is an ordinary text. -/
  | default
  | other (name : String)
  deriving Repr, DecidableEq

/-- What the names of the tags above begin with. -/
def tagStem : String := "tag:yaml.org,2002:"

def Tag.ofName (name : String) : Tag :=
  let tags := [
    ("null", null), ("bool", bool), ("int", int), ("float", real), ("str", text),
    ("binary", bytes), ("timestamp", timestamp), ("seq", list), ("map", map), ("set", set),
    ("omap", pairs), ("pairs", pairs), ("merge", merge), ("value", default)]
  (tags.findSome? fun (word, t) => if name == tagStem ++ word then some t else none).getD
    (other name)

/-! ## Spelling -/

def trueWords : List String := ["yes", "Yes", "YES", "true", "True", "TRUE", "on", "On", "ON"]

def falseWords : List String := ["no", "No", "NO", "false", "False", "FALSE", "off", "Off", "OFF"]

def nullWords : List String := ["~", "null", "Null", "NULL", ""]

def isDigitOrGap (c : Char) : Bool :=
  c.isDigit || c == '_'

def digitOf (base : Nat) (c : Char) : Option Nat :=
  let n := if c.isDigit then c.toNat - '0'.toNat else c.toLower.toNat - 'a'.toNat + 10
  if (c.isDigit || c.isAlpha) && n < base then some n else none

def isNumeral (base : Nat) (cs : List Char) : Bool :=
  !cs.isEmpty && cs.all fun c => c == '_' || (digitOf base c).isSome

/-- A digit of base sixty: one or two decimal digits. -/
def isSixtieth : List Char → Bool
  | [c] => c.isDigit
  | [c, d] => (digitOf 6 c).isSome && d.isDigit
  | _ => false

def isNatural (cs : List Char) : Bool :=
  match cs with
  | ['0'] => true
  | '0' :: 'b' :: digits => isNumeral 2 digits
  | '0' :: 'x' :: digits => isNumeral 16 digits
  | '0' :: digits => isNumeral 8 digits
  | c :: _ =>
    match Text.splitAt ':' cs with
    | whole :: parts => c.isDigit && isNumeral 10 whole && parts.all isSixtieth
    | [] => false
  | [] => false

def isInteger (cs : List Char) : Bool :=
  isNatural (Text.splitSign cs).2

def isExponent : List Char → Bool
  | [] => true
  | e :: sign :: digits =>
    (e == 'e' || e == 'E') && (sign == '+' || sign == '-') && !digits.isEmpty &&
      digits.all Char.isDigit
  | _ => false

/-- Whether the places of base sixty after the first end with a fraction. -/
def isSexagesimalTail (parts : List (List Char)) : Bool :=
  match parts.getLast? with
  | none => false
  | some last =>
    let fraction := last.dropWhile (· != '.')
    parts.dropLast.all isSixtieth && isSixtieth (last.takeWhile (· != '.')) &&
      !fraction.isEmpty && (fraction.drop 1).all isDigitOrGap

def isPointed (cs : List Char) : Bool :=
  (cs.head?.map Char.isDigit).getD false &&
  match cs.dropWhile isDigitOrGap with
  | '.' :: rest => isExponent (rest.dropWhile isDigitOrGap)
  | ':' :: _ => isSexagesimalTail (Text.splitAt ':' cs).tail
  | _ => false

/-- Whether a text is spelled like a number that begins with its point; it has no sign. -/
def isFraction : List Char → Bool
  | '.' :: c :: rest => c.isDigit && isExponent (rest.dropWhile isDigitOrGap)
  | _ => false

def isReal (cs : List Char) : Bool :=
  let body := (Text.splitSign cs).2
  [".inf", ".Inf", ".INF"].contains (String.ofList body) ||
  [".nan", ".NaN", ".NAN"].contains (String.ofList cs) ||
  isPointed body || isFraction cs

/-- The tag that the spelling of a scalar gives it. A line feed at the end does not count, unless it
is all there is. -/
def Tag.ofSpelling (all : List Char) : Tag :=
  let cs := if all == ['\n'] then all else Text.dropLastBreak all
  let s := String.ofList cs
  if trueWords.contains s || falseWords.contains s then bool
  else if isReal cs then real
  else if isInteger cs then int
  else if s == "<<" then merge
  else if nullWords.contains s then null
  else if Timestamp.isTimestamp cs then timestamp
  else if s == "=" then default
  else text

/-! ## Values -/

def dropGaps (cs : List Char) : List Char :=
  cs.filter (· != '_')

/-- The letter that may stand after a zero in front of the digits of a base. -/
def baseLetter? : Nat → Option Char
  | 2 => some 'b'
  | 8 => some 'o'
  | 16 => some 'x'
  | _ => none

/-- A zero of any script and the letter of the base may stand before the digits. -/
def dropBaseMark (base : Nat) : List Char → List Char
  | z :: c :: rest =>
    if Text.digit? z == some 0 && baseLetter? base == some c.toLower then rest else z :: c :: rest
  | cs => cs

/-- A digit of a base up to sixteen; decimal digits may be of any script. -/
def anyDigitOf (base : Nat) (c : Char) : Option Nat :=
  match Text.digit? c with
  | some d => if d < base then some d else none
  | none => digitOf base c

/-- The integer that a text writes in a base. -/
def integerIn? (base : Nat) (cs : List Char) : Option Int :=
  if base == 10 then Text.integer? (String.ofList cs)
  else
    let (neg, body) := Text.splitSign (Text.trim cs)
    let digits := dropBaseMark base body
    if digits.isEmpty then none
    else do
      let ds ← digits.mapM (anyDigitOf base)
      let n := ds.foldl (fun n d => n * base + d) 0
      return if neg then -(n : Int) else n

def integerIn (base : Nat) (cs : List Char) : Except ScalarFault Int :=
  match integerIn? base cs with
  | some n => .ok n
  | none => .error (.integer base (String.ofList cs))

def unsignedInteger (cs : List Char) : Except ScalarFault Int :=
  match cs with
  | [] => .error .emptyNumber
  | ['0'] => .ok 0
  | '0' :: 'b' :: digits => integerIn 2 digits
  | '0' :: 'x' :: digits => integerIn 16 digits
  | '0' :: _ => integerIn 8 cs
  | _ => do
    let digits ← (Text.splitAt ':' cs).mapM (integerIn 10)
    return digits.foldl (fun n d => n * 60 + d) 0

def readInteger (cs : List Char) : Except ScalarFault Int := do
  let (neg, body) := Text.splitSign (dropGaps cs)
  let n ← unsignedInteger body
  return if neg then -n else n

def decimal (cs : List Char) : Except ScalarFault Binary64 :=
  match Text.decimal? (String.ofList cs) with
  | some x => .ok x
  | none => .error (.real (String.ofList cs))

/-- The sum of the places of a number of base sixty, which come last first; `base` is the worth of
the first. -/
def sumPlaces : List Binary64 → Nat → Binary64 → Except Overflow Binary64
  | [], _, sum => .ok sum
  | d :: rest, base, sum => do
    sumPlaces rest (base * 60) (sum + d * (← Binary64.ofInt base))

/-- A number in lower case without its gaps, in front of it whether it has a minus. -/
def splitReal (cs : List Char) : Bool × List Char :=
  Text.splitSign (Text.lower (dropGaps cs))

/-- Whether a number is written with the word for NaN that has a point. Whatever the sign, it is
always the same NaN. -/
def isNaNWord (cs : List Char) : Bool :=
  (splitReal cs).2 == ".nan".toList

def unsignedReal (cs : List Char) : Except ScalarFault Binary64 := do
  if cs == ".inf".toList then return .posInf
  else
    match Text.splitAt ':' cs with
    | [whole] => decimal whole
    | parts =>
      let places ← parts.mapM decimal
      (sumPlaces places.reverse 1 .zero).mapError .overflow

def readReal (cs : List Char) : Except ScalarFault Binary64 := do
  if (dropGaps cs).isEmpty then .error .emptyNumber
  else if isNaNWord cs then return .invalid
  else
    let (neg, body) := splitReal cs
    let x ← unsignedReal body
    return if neg then x * .minusOne else x

/-- Truth words count however their letters are capitalised. -/
def readBool (cs : List Char) : Except ScalarFault Bool :=
  let word := String.ofList (Text.lower cs)
  if trueWords.contains word then .ok true
  else if falseWords.contains word then .ok false
  else .error (.truthWord word)

def readTimestamp (cs : List Char) : Except ScalarFault Timestamp :=
  match Timestamp.read? cs with
  | none => .error .noTimestamp
  | some t => t.check.mapError .timestamp |>.map fun _ => t

def readBytes (cs : List Char) : Except Fault (List UInt8) :=
  match Base64.decode? cs with
  | some bs => .ok bs
  | none => .error .malformedBytes

def scalarValue (tag : Tag) (cs : List Char) : Except Fault Value :=
  match tag with
  | .null => .ok .null
  | .bool => (readBool cs).mapError .scalar |>.map .bool
  | .int => (readInteger cs).mapError .scalar |>.map .int
  | .real => (readReal cs).mapError .scalar |>.map .real
  | .text => .ok (.text (String.ofList cs))
  | .bytes => (readBytes cs).map .bytes
  | .timestamp => (readTimestamp cs).mapError .scalar |>.map .timestamp
  | .list | .map | .set | .pairs => .error .misplacedTag
  | .merge | .default | .other _ => .error .unknownTag

end Ostinato.Yaml
