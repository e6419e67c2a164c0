import Ostinato.Binary64

/-!
# Logarithms of integers

The natural logarithm is computed in fixed point with far more places than binary64 has, and then
rounded once. With `t = (m - 2 ^ k) / (m + 2 ^ k)` the logarithm of `m` is `k * ln 2 + 2 * atanh t`,
and the series of `atanh` converges fast because `t` is below one third.

The binary logarithm is the quotient of two rounded logarithms, so that it can be whole for numbers
that are no powers of two, and not whole for some that are.
-/

namespace Ostinato.Binary64

def fixedOne : Nat := Nat.pow 2 256

/-- `power / d + power * square / (d + 2) + …`, so many terms of it. -/
def atanhSeries (square : Nat) : Nat → Nat → Nat → Nat
  | 0, _, _ => 0
  | terms + 1, d, power =>
    power / d + atanhSeries square terms (d + 2) (power * square / fixedOne)

def fixedAtanh (num den : Nat) : Nat :=
  let t := num * fixedOne / den
  atanhSeries (t * t / fixedOne) 90 1 t

def fixedLn2 : Nat :=
  2 * fixedAtanh 1 3

/-- The natural logarithm of a positive integer. -/
def fixedLn (m : Nat) : Nat :=
  let k := m.log2
  k * fixedLn2 + 2 * fixedAtanh (m - Nat.pow 2 k) (m + Nat.pow 2 k)

/-- The number nearest to the natural logarithm of a positive integer, which is first rounded to 53
bits itself. -/
def ln (n : Nat) : Binary64 :=
  roundQuotient false (fixedLn (nearestMag n 1) * one) fixedOne

def log2 (n : Nat) : Binary64 :=
  ln n / ln 2

def natural? : Binary64 → Option Nat
  | fin false mag => if mag % one = 0 then some (mag / one) else none
  | _ => none

end Ostinato.Binary64
