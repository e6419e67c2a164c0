import Ostinato.Binary64

/-!
# Decimal text of binary64 numbers

Two ways to write a number: with the fewest digits that read back as the same number, and with a
fixed count of places. How the digits are laid out is a `Style`, kept apart from their choice.
-/

namespace Ostinato.Binary64

def reachesTenPow (mag : Nat) (k : Int) : Bool :=
  if 0 ≤ k then Nat.pow 10 k.toNat * one ≤ mag else one ≤ mag * Nat.pow 10 (-k).toNat

/-- The `e` with `10 ^ e ≤ mag < 10 ^ (e + 1)`, for a positive magnitude. The product with
`0.30103` is within one of it. -/
def decimalExponent (mag : Nat) : Int :=
  let e := ((mag.log2 : Int) - 1074) * 30103 / 100000
  if reachesTenPow mag (e + 1) then e + 1
  else if reachesTenPow mag e then e
  else e - 1

/-- A positive magnitude as a quotient in steps of `10 ^ k`. -/
def inSteps (mag : Nat) (k : Int) : Nat × Nat :=
  if 0 ≤ k then (mag, one * Nat.pow 10 k.toNat) else (mag * Nat.pow 10 (-k).toNat, one)

def magOfDecimal (digits : Nat) (k : Int) : Nat :=
  if 0 ≤ k then nearestMag (digits * Nat.pow 10 k.toNat * one) 1
  else nearestMag (digits * one) (Nat.pow 10 (-k).toNat)

/-- The neighbour of a magnitude on the grid of step `10 ^ k` that reads back as it: the nearer one
when both do, and of two equally near ones the even one. -/
def neighbour? (mag : Nat) (k : Int) : Option Nat :=
  let (num, den) := inSteps mag k
  let below := num / den
  let above := below + 1
  match magOfDecimal below k == mag, magOfDecimal above k == mag with
  | true, true => some (divNearest num den)
  | true, false => some below
  | false, true => some above
  | false, false => none

/-- Searches ever finer grids, from the one where the number has a single digit. -/
def shortestFrom (mag : Nat) : Nat → Int → Nat × Int
  | 0, k => (mag / one, k)
  | n + 1, k =>
    match neighbour? mag k with
    | some digits => (digits, k)
    | none => shortestFrom mag n (k - 1)

/-- The fewest digits, with the power of ten that scales them, that read back as the magnitude.
Seventeen digits always suffice. -/
def shortest (mag : Nat) : Nat × Int :=
  shortestFrom mag 18 (decimalExponent mag)

/-- How a decimal number is laid out. -/
structure Style where
  /-- The point may stand from this many digits left of the first digit … -/
  leastPoint : Int
  /-- … to this many digits right of it; elsewhere an exponent is written. -/
  greatestPoint : Int
  /-- An exponent has a sign and at least this many digits. -/
  exponentDigits : Nat

def trimZeros (digits : List Char) : List Char :=
  (digits.reverse.dropWhile (· == '0')).reverse

/-- Lays out digits whose point stands after the first `point` of them. -/
def Style.layout (style : Style) (digits : List Char) (point : Int) : List Char :=
  if style.leastPoint ≤ point ∧ point ≤ style.greatestPoint then
    if point ≤ 0 then '0' :: '.' :: (List.replicate (-point).toNat '0' ++ digits)
    else
      let whole := digits.take point.toNat
      let rest := digits.drop point.toNat
      whole ++ List.replicate (point.toNat - whole.length) '0' ++ '.' ::
        (if rest.isEmpty then ['0'] else rest)
  else
    let exponent := point - 1
    let shown := (toString exponent.natAbs).toList
    let mantissa :=
      match digits with
      | d :: e :: rest => d :: '.' :: e :: rest
      | ds => ds
    mantissa ++ 'e' :: (if exponent < 0 then '-' else '+') ::
      (List.replicate (style.exponentDigits - shown.length) '0' ++ shown)

/-- Numbers in messages: positional from `0.0001` up to sixteen digits, `1e-05` and `1e+16`
outside. -/
def messageStyle : Style := { leastPoint := -3, greatestPoint := 16, exponentDigits := 2 }

def signText (neg : Bool) : String :=
  if neg then "-" else ""

/-- The shortest text that reads back as the number. -/
def text : Binary64 → String
  | nan _ => "nan"
  | inf s => signText s ++ "inf"
  | fin s 0 => signText s ++ "0.0"
  | fin s mag =>
    let (digits, k) := shortest mag
    let shown := (toString digits).toList
    signText s ++ String.ofList (messageStyle.layout (trimZeros shown) (shown.length + k))

/-- The number with a fixed count of places, a half going to the even neighbour. -/
def fixed (places : Nat) : Binary64 → String
  | nan _ => "nan"
  | inf s => signText s ++ "inf"
  | fin s mag =>
    let scaled := divNearest (mag * Nat.pow 10 places) one
    let shown := (toString scaled).toList
    let padded := List.replicate (places + 1 - shown.length) '0' ++ shown
    let whole := padded.take (padded.length - places)
    let rest := padded.drop (padded.length - places)
    signText s ++ String.ofList (if places = 0 then whole else whole ++ '.' :: rest)

end Ostinato.Binary64
