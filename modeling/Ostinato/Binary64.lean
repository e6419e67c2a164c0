/-!
# Binary64 numbers

Virtual time is kept in IEEE 754 binary64, and recorded times are compared bit for bit, so the
arithmetic is spelled out here in exact natural numbers instead of being left to the hardware.

Every finite number is a whole multiple of the smallest positive one, `2 ^ -1074`. A finite number
is therefore a sign and a natural number of those units, an exact result is a quotient of natural
numbers, and each operation is one call of `roundQuotient`. Comparison of finite numbers is
comparison of naturals.
-/

namespace Ostinato

/-- A binary64 number. `fin neg mag` is `mag * 2 ^ -1074`, negated when `neg` holds; the two zeros
are `fin false 0` and `fin true 0`. Of a NaN only the sign is kept. -/
inductive Binary64 where
  | nan (neg : Bool)
  | inf (neg : Bool)
  | fin (neg : Bool) (mag : Nat)
  deriving Repr, DecidableEq, Inhabited

/-- Why a computation has no number to go on with. -/
inductive Overflow where
  /-- The integer rounds to `2 ^ 1024` or more. -/
  | integerTooLarge
  /-- An infinite number has no integer part. -/
  | infinityToInteger
  /-- A NaN has no integer part. -/
  | nanToInteger
  /-- A value of another kind cannot be compared with a number. -/
  | notANumber (kind : String)
  deriving Repr, DecidableEq

def Overflow.message : Overflow → String
  | .integerTooLarge => "int too large to convert to float"
  | .infinityToInteger => "cannot convert float infinity to integer"
  | .nanToInteger => "cannot convert float NaN to integer"
  | .notANumber kind => "'<=' not supported between instances of 'int' and '" ++ kind ++ "'"

def divNearest (num den : Nat) : Nat :=
  let q := num / den
  let r := num % den
  if 2 * r < den then q
  else if den < 2 * r then q + 1
  else if q % 2 = 0 then q else q + 1

namespace Binary64

/-- Units in one: `1 = one * 2 ^ -1074`. -/
def one : Nat := Nat.pow 2 1074

/-- The first magnitude, in units, that is not finite. -/
def limit : Nat := Nat.pow 2 2098

/-- The magnitude with at most 53 significant bits nearest to `num / den`, ties to even. The
exponent is not bounded above. -/
def nearestMag (num den : Nat) : Nat :=
  let q := num / den
  if q < Nat.pow 2 53 then divNearest num den
  else
    let s := q.log2 - 52
    divNearest num (den * Nat.pow 2 s) * Nat.pow 2 s

/-- Rounds `num / den` units, with the given sign, to the nearest number. -/
def roundQuotient (neg : Bool) (num den : Nat) : Binary64 :=
  let m := nearestMag num den
  if m < limit then fin neg m else inf neg

def zero : Binary64 := fin false 0

def posInf : Binary64 := inf false

def minusOne : Binary64 := fin true one

def ofDifference (a b : Nat) : Binary64 :=
  if a = b then fin false 0
  else if b < a then roundQuotient false (a - b) 1
  else roundQuotient true (b - a) 1

/-- The result of an operation that has none; its sign bit is set. -/
def invalid : Binary64 := nan true

/-- Addition. An operand that is a NaN is the result, as in all operations. -/
def add : Binary64 → Binary64 → Binary64
  | nan s, _ => nan s
  | _, nan s => nan s
  | inf s, inf t => if s = t then inf s else invalid
  | inf s, fin _ _ => inf s
  | fin _ _, inf t => inf t
  | fin false a, fin false b => roundQuotient false (a + b) 1
  | fin true a, fin true b => roundQuotient true (a + b) 1
  | fin false a, fin true b => ofDifference a b
  | fin true a, fin false b => ofDifference b a

def neg : Binary64 → Binary64
  | nan s => nan (!s)
  | inf s => inf (!s)
  | fin s a => fin (!s) a

def sub (x y : Binary64) : Binary64 :=
  match x, y with
  | nan s, _ => nan s
  | _, nan s => nan s
  | _, _ => add x y.neg

def mul : Binary64 → Binary64 → Binary64
  | nan s, _ => nan s
  | _, nan s => nan s
  | inf s, inf t => inf (s != t)
  | inf s, fin t b => if b = 0 then invalid else inf (s != t)
  | fin s a, inf t => if a = 0 then invalid else inf (s != t)
  | fin s a, fin t b => roundQuotient (s != t) (a * b) one

/-- Division. A finite number divided by zero is infinite; nothing here divides by zero. -/
def div : Binary64 → Binary64 → Binary64
  | nan s, _ => nan s
  | _, nan s => nan s
  | inf _, inf _ => invalid
  | inf s, fin t _ => inf (s != t)
  | fin s _, inf t => fin (s != t) 0
  | fin s a, fin t b =>
    if b = 0 then (if a = 0 then invalid else inf (s != t))
    else roundQuotient (s != t) (one * a) b

instance : Add Binary64 := ⟨add⟩
instance : Sub Binary64 := ⟨sub⟩
instance : Mul Binary64 := ⟨mul⟩
instance : Div Binary64 := ⟨div⟩

def lt : Binary64 → Binary64 → Bool
  | nan _, _ => false
  | _, nan _ => false
  | inf s, inf t => s && !t
  | inf s, fin _ _ => s
  | fin _ _, inf t => !t
  | fin false a, fin false b => a < b
  | fin true a, fin true b => b < a
  | fin true a, fin false b => a ≠ 0 || b ≠ 0
  | fin false _, fin true _ => false

/-- Numeric equality: the two zeros are equal and a NaN equals nothing. -/
def eq : Binary64 → Binary64 → Bool
  | nan _, _ => false
  | _, nan _ => false
  | inf s, inf t => s = t
  | fin s a, fin t b => a = b && (s = t || a = 0)
  | _, _ => false

def le (x y : Binary64) : Bool :=
  lt x y || eq x y

def ofInt (n : Int) : Except Overflow Binary64 :=
  let m := nearestMag (one * n.natAbs) 1
  if m < limit then .ok (fin (n < 0) m) else .error .integerTooLarge

/-- The number nearest to `± digits * 10 ^ exponent`, infinite when that is too large. -/
def ofDecimal (neg : Bool) (digits : Nat) (exponent : Int) : Binary64 :=
  if digits = 0 then fin neg 0
  else if exponent > 400 then inf neg
  else if 0 ≤ exponent then roundQuotient neg (one * (digits * Nat.pow 10 exponent.toNat)) 1
  else
    let e := (-exponent).toNat
    -- A value below `2 ^ -1080` rounds to zero; its power of ten need not be built.
    if e > 400 + (digits.log2 + 1) then fin neg 0
    else roundQuotient neg (one * digits) (Nat.pow 10 e)

def truncate : Binary64 → Except Overflow Int
  | nan _ => .error .nanToInteger
  | inf _ => .error .infinityToInteger
  | fin s a =>
    let n : Int := (a / one : Nat)
    .ok (if s then -n else n)

def roundToInt : Binary64 → Except Overflow Int
  | nan _ => .error .nanToInteger
  | inf _ => .error .infinityToInteger
  | fin s a =>
    let n : Int := (divNearest a one : Nat)
    .ok (if s then -n else n)

def bits : Binary64 → Nat
  | nan s => (if s then Nat.pow 2 63 else 0) + 0x7ff8000000000000
  | inf s => (if s then Nat.pow 2 63 else 0) + 0x7ff0000000000000
  | fin s a =>
    let sign := if s then Nat.pow 2 63 else 0
    if a < Nat.pow 2 53 then sign + a
    else
      let e := a.log2 - 52
      sign + e * Nat.pow 2 52 + a / Nat.pow 2 e

end Binary64

end Ostinato
