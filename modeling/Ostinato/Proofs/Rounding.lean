import Mathlib.Tactic.SplitIfs
import Ostinato.Proofs.Ticking

/-!
# Rounding keeps the order

Rounding to 53 bits is monotone (`nearestMag_mono`) and leaves what it has rounded as it is
(`nearestMag_nearestMag`), since the rounded number is a multiple of the unit of its quotient and has
53 bits of them at most. So the operations on spans of time keep their order, also where a result is
too large and becomes infinite, and a time that an operation has given does not move when nothing
is added to it. The zero span is the least one.
-/

namespace Ostinato

theorem divNearest_mono {num num' : Nat} (h : num ≤ num') (den : Nat) :
    divNearest num den ≤ divNearest num' den := by
  have hu := (divNearest_bounds num den).2
  have hl := (divNearest_bounds num' den).1
  rcases Nat.eq_or_lt_of_le (Nat.div_le_div_right (c := den) h) with hq | hq
  · have hr : num % den ≤ num' % den := by
      have hnum := Nat.div_add_mod num den
      have hnum' := Nat.div_add_mod num' den
      rw [hq] at hnum
      omega
    unfold divNearest
    dsimp only
    rw [← hq]
    split_ifs <;> omega
  · omega

theorem divNearest_mul (n : Nat) {den : Nat} (h : 0 < den) : divNearest (n * den) den = n := by
  unfold divNearest
  dsimp only
  rw [Nat.mul_div_cancel n h, Nat.mul_mod_left, if_pos (by omega)]

namespace Binary64

/-! ## The unit of a quotient -/

/-- The exponent of the unit that a quotient is rounded to. -/
def shift (q : Nat) : Nat := q.log2 - 52

theorem lt_two_pow_shift (q : Nat) : q < 2 ^ 53 * 2 ^ shift q := by
  by_cases hq : q = 0
  · rw [hq]
    exact Nat.mul_pos (Nat.two_pow_pos _) (Nat.two_pow_pos _)
  · have hlog : q < 2 ^ (q.log2 + 1) := (Nat.log2_lt hq).mp (Nat.lt_succ_self _)
    have hle : 2 ^ (q.log2 + 1) ≤ 2 ^ (53 + shift q) :=
      Nat.pow_le_pow_right (by decide) (by unfold shift; omega)
    rw [← Nat.pow_add]
    omega

theorem two_pow_shift_le {q : Nat} (h : shift q ≠ 0) : 2 ^ 52 * 2 ^ shift q ≤ q := by
  have hq : q ≠ 0 := by
    rintro rfl
    exact h (by decide)
  have hexp : 52 + shift q = q.log2 := by
    unfold shift at h ⊢
    omega
  rw [← Nat.pow_add, hexp]
  exact Nat.log2_self_le hq

theorem shift_mono {q q' : Nat} (h : q ≤ q') : shift q ≤ shift q' := by
  have hlog : q.log2 ≤ q'.log2 := by
    by_cases hq : q = 0
    · rw [hq]
      exact Nat.zero_le _
    · exact (Nat.le_log2 (by omega)).mpr (Nat.le_trans (Nat.log2_self_le hq) h)
  unfold shift
  omega

/-- Small quotients have the unit one, so both branches of rounding are one. -/
theorem nearestMag_eq (num den : Nat) :
    nearestMag num den =
      divNearest num (den * 2 ^ shift (num / den)) * 2 ^ shift (num / den) := by
  unfold nearestMag
  dsimp only
  split
  · rename_i hq
    have hshift : shift (num / den) = 0 := by
      by_contra hne
      have hle := two_pow_shift_le hne
      have hunit : 2 ^ 1 ≤ 2 ^ shift (num / den) := Nat.pow_le_pow_right (by decide) (by omega)
      have hq : num / den < 2 ^ 53 := hq
      omega
    rw [hshift, Nat.pow_zero, Nat.mul_one, Nat.mul_one]
  · rfl

theorem nearestMag_digits (num den : Nat) :
    divNearest num (den * 2 ^ shift (num / den)) ≤ 2 ^ 53 := by
  have hu := (divNearest_bounds num (den * 2 ^ shift (num / den))).2
  have hlt : num / den / 2 ^ shift (num / den) < 2 ^ 53 :=
    Nat.div_lt_of_lt_mul (by rw [Nat.mul_comm]; exact lt_two_pow_shift (num / den))
  rw [← Nat.div_div_eq_div_mul] at hu
  omega

/-! ## Order -/

/-- Rounding is monotone. Quotients with different units lie on either side of a power of two, and
so do the rounded ones. -/
theorem nearestMag_mono {num num' : Nat} (h : num ≤ num') (den : Nat) :
    nearestMag num den ≤ nearestMag num' den := by
  have hq : num / den ≤ num' / den := Nat.div_le_div_right h
  rw [nearestMag_eq, nearestMag_eq]
  rcases Nat.eq_or_lt_of_le (shift_mono hq) with hs | hs
  · rw [hs]
    exact Nat.mul_le_mul_right _ (divNearest_mono h _)
  · have hdigits := nearestMag_digits num den
    have hdigits' : 2 ^ 52 ≤ divNearest num' (den * 2 ^ shift (num' / den)) := by
      refine Nat.le_trans ?_ (divNearest_bounds _ _).1
      rw [← Nat.div_div_eq_div_mul, Nat.le_div_iff_mul_le (Nat.two_pow_pos _)]
      exact two_pow_shift_le (by omega)
    generalize divNearest num (den * 2 ^ shift (num / den)) = n at hdigits ⊢
    generalize divNearest num' (den * 2 ^ shift (num' / den)) = n' at hdigits' ⊢
    calc n * 2 ^ shift (num / den) ≤ 2 ^ 53 * 2 ^ shift (num / den) :=
          Nat.mul_le_mul_right _ hdigits
      _ = 2 ^ 52 * 2 ^ (shift (num / den) + 1) := by rw [← Nat.pow_add, ← Nat.pow_add]; congr 1; omega
      _ ≤ 2 ^ 52 * 2 ^ shift (num' / den) :=
          Nat.mul_le_mul_left _ (Nat.pow_le_pow_right (by decide) hs)
      _ ≤ n' * 2 ^ shift (num' / den) := Nat.mul_le_mul_right _ hdigits'

theorem nearestMag_digits_mul {n : Nat} (hn : n ≤ 2 ^ 53) (s : Nat) :
    nearestMag (n * 2 ^ s) 1 = n * 2 ^ s := by
  rw [nearestMag_eq, Nat.div_one, Nat.one_mul]
  have hdvd : 2 ^ shift (n * 2 ^ s) ∣ n * 2 ^ s := by
    by_cases hs : shift (n * 2 ^ s) ≤ s
    · exact Nat.dvd_mul_left_of_dvd (Nat.pow_dvd_pow 2 hs) n
    · -- The only magnitude with a larger unit is the next power of two.
      have hlow := two_pow_shift_le (q := n * 2 ^ s) (by omega)
      have hhigh : n * 2 ^ s ≤ 2 ^ (53 + s) := by
        rw [Nat.pow_add]
        exact Nat.mul_le_mul_right _ hn
      rw [← Nat.pow_add] at hlow
      have hexp : 52 + shift (n * 2 ^ s) ≤ 53 + s :=
        (Nat.pow_le_pow_iff_right (by decide)).mp (Nat.le_trans hlow hhigh)
      have heq : n * 2 ^ s = 2 ^ (53 + s) := by
        have hsum : 53 + s = 52 + shift (n * 2 ^ s) := by omega
        rw [← hsum] at hlow
        omega
      have hpow : 2 ^ shift (n * 2 ^ s) ∣ 2 ^ (53 + s) := Nat.pow_dvd_pow 2 (by omega)
      exact hpow.trans (dvd_of_eq heq.symm)
  obtain ⟨k, hk⟩ := hdvd
  generalize shift (n * 2 ^ s) = t at hk
  rw [hk, Nat.mul_comm (2 ^ t) k, divNearest_mul k (Nat.two_pow_pos t)]

theorem nearestMag_nearestMag (num den : Nat) :
    nearestMag (nearestMag num den) 1 = nearestMag num den := by
  rw [nearestMag_eq num den]
  exact nearestMag_digits_mul (nearestMag_digits num den) _

-- The value of these two is too large to be computed with.
attribute [local irreducible] one limit

theorem le_fin {a b : Nat} : (fin false a).le (fin false b) = true ↔ a ≤ b := by
  simp only [le, lt, eq, Bool.or_eq_true, decide_eq_true_eq, Bool.and_eq_true]
  constructor
  · rintro (h | ⟨h, -⟩) <;> omega
  · intro h
    rcases Nat.eq_or_lt_of_le h with h | h
    · exact .inr ⟨h, .inl trivial⟩
    · exact .inl h

theorem IsSpan.le_inf {x : Binary64} (hx : x.IsSpan) : x.le (inf false) = true := by
  match x, hx with
  | fin false a, _ => rfl
  | inf false, _ => rfl

theorem IsSpan.le_refl {x : Binary64} (hx : x.IsSpan) : x.le x = true := by
  match x, hx with
  | fin false a, _ => exact le_fin.mpr (Nat.le_refl a)
  | inf false, _ => rfl

theorem IsSpan.zero_le {x : Binary64} (hx : x.IsSpan) : zero.le x = true := by
  match x, hx with
  | fin false a, _ => exact le_fin.mpr (Nat.zero_le a)
  | inf false, _ => rfl

theorem IsSpan.le_trans {x y z : Binary64} (hx : x.IsSpan) (hy : y.IsSpan) (hz : z.IsSpan)
    (hxy : x.le y = true) (hyz : y.le z = true) : x.le z = true := by
  match z, hz with
  | inf false, _ => exact hx.le_inf
  | fin false c, _ =>
    match y, hy with
    | inf false, _ => cases hyz
    | fin false b, _ =>
      match x, hx with
      | inf false, _ => cases hxy
      | fin false a, _ => exact le_fin.mpr (Nat.le_trans (le_fin.mp hxy) (le_fin.mp hyz))

theorem roundQuotient_mono {num num' : Nat} (h : num ≤ num') (den : Nat) :
    (roundQuotient false num den).le (roundQuotient false num' den) = true := by
  have hmag := nearestMag_mono h den
  by_cases hlt : nearestMag num' den < limit
  · rw [roundQuotient_of_lt hlt, roundQuotient_of_lt (by omega)]
    exact le_fin.mpr hmag
  · rw [roundQuotient_of_not_lt hlt]
    exact (roundQuotient_isSpan num den).le_inf

/-! ## Operations on spans -/

theorem IsSpan.add {x y : Binary64} (hx : x.IsSpan) (hy : y.IsSpan) : (x + y).IsSpan := by
  match x, hx, y, hy with
  | fin false a, _, fin false b, _ => exact roundQuotient_isSpan _ _
  | fin false _, _, inf false, _ => trivial
  | inf false, _, fin false _, _ => trivial
  | inf false, _, inf false, _ => trivial

theorem IsSpan.add_mono {x y z : Binary64} (hx : x.IsSpan) (hy : y.IsSpan) (hz : z.IsSpan)
    (h : y.le z = true) : (x + y).le (x + z) = true := by
  match x, hx, z, hz with
  | fin false a, hx, inf false, hz => exact (IsSpan.add hx hy).le_inf
  | inf false, hx, inf false, hz => exact (IsSpan.add hx hy).le_inf
  | inf false, hx, fin false c, hz => exact (IsSpan.add hx hy).le_inf
  | fin false a, hx, fin false c, hz =>
    match y, hy with
    | inf false, _ => cases h
    | fin false b, _ => exact roundQuotient_mono (Nat.add_le_add_left (le_fin.mp h) a) 1

theorem mul_isSpan (a b : Nat) : (fin false a * fin false b).IsSpan :=
  roundQuotient_isSpan (a * b) one

theorem mul_mono {a b : Nat} (h : a ≤ b) (d : Nat) :
    (fin false a * fin false d).le (fin false b * fin false d) = true :=
  roundQuotient_mono (Nat.mul_le_mul_right d h) one

theorem zero_mul_fin (d : Nat) : fin false 0 * fin false d = zero := by
  show roundQuotient false (0 * d) one = zero
  have hmag : nearestMag 0 one = 0 := by
    rw [nearestMag_eq, Nat.zero_div]
    have hn : divNearest 0 (one * 2 ^ shift 0) = 0 := by
      have h := divNearest_mul 0 (Nat.mul_pos one_pos (Nat.two_pow_pos (shift 0)))
      rwa [Nat.zero_mul] at h
    rw [hn, Nat.zero_mul]
  rw [Nat.zero_mul, roundQuotient_of_lt (by rw [hmag]; have := one_le_limit; have := one_pos; omega),
    hmag]
  rfl

theorem ofInt_mono {m n : Int} (hm : 0 ≤ m) (h : m ≤ n) {x y : Binary64} (hx : ofInt m = .ok x)
    (hy : ofInt n = .ok y) :
    ∃ a b, x = fin false a ∧ y = fin false b ∧ a ≤ b := by
  have hneg : decide (m < 0) = false := by simpa using hm
  have hneg' : decide (n < 0) = false := by simpa using Int.le_trans hm h
  have habs : one * m.natAbs ≤ one * n.natAbs := Nat.mul_le_mul_left one (by omega)
  unfold ofInt at hx hy
  dsimp only at hx hy
  split at hx
  · split at hy
    · cases hx
      cases hy
      exact ⟨_, _, by rw [hneg], by rw [hneg'], nearestMag_mono habs 1⟩
    · cases hy
  · cases hx

theorem ofInt_zero : ofInt 0 = .ok zero := by decide +kernel

/-! ## Times -/

/-- A number that the clock can show: a span that is rounded. -/
def IsTime : Binary64 → Prop
  | fin false a => a < limit ∧ nearestMag a 1 = a
  | inf false => True
  | _ => False

theorem IsTime.isSpan {x : Binary64} (hx : x.IsTime) : x.IsSpan := by
  match x, hx with
  | fin false a, _ => trivial
  | inf false, _ => trivial

theorem roundQuotient_isTime (num den : Nat) : (roundQuotient false num den).IsTime := by
  by_cases h : nearestMag num den < limit
  · rw [roundQuotient_of_lt h]
    exact ⟨h, nearestMag_nearestMag num den⟩
  · rw [roundQuotient_of_not_lt h]
    exact trivial

theorem zero_isTime : zero.IsTime := by
  constructor
  · have := one_le_limit
    have := one_pos
    omega
  · exact nearestMag_digits_mul (n := 0) (Nat.zero_le _) 0

theorem IsSpan.add_isTime {x y : Binary64} (hx : x.IsSpan) (hy : y.IsSpan) : (x + y).IsTime := by
  match x, hx, y, hy with
  | fin false a, _, fin false b, _ => exact roundQuotient_isTime _ _
  | fin false _, _, inf false, _ => trivial
  | inf false, _, fin false _, _ => trivial
  | inf false, _, inf false, _ => trivial

theorem IsTime.add_zero {x : Binary64} (hx : x.IsTime) : x + zero = x := by
  match x, hx with
  | inf false, _ => rfl
  | fin false a, ⟨hlt, hmag⟩ =>
    show roundQuotient false (a + 0) 1 = fin false a
    rw [Nat.add_zero, roundQuotient_of_lt (by rwa [hmag]), hmag]

theorem IsTime.le_add {x y : Binary64} (hx : x.IsTime) (hy : y.IsSpan) : x.le (x + y) = true := by
  have h := hx.isSpan.add_mono zero_isTime.isSpan hy hy.zero_le
  rwa [hx.add_zero] at h

end Binary64

end Ostinato
