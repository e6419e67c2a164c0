import Ostinato.Proofs.Reading
import Ostinato.Proofs.Timing

/-!
# A clock that keeps ticking

Clock time is divided by the length of a tick, so a tick must never get to last nothing, nor
forever. `Ticking` is that invariant. It holds of the first clock, every operation keeps it, also
one that fails, and as long as it holds an operation with arguments in range fails for one reason
only: a number that is too large to be converted.
-/

namespace Ostinato

/-! ## Rounding -/

theorem divNearest_bounds (num den : Nat) :
    num / den ≤ divNearest num den ∧ divNearest num den ≤ num / den + 1 := by
  unfold divNearest
  dsimp only
  split
  · omega
  · split
    · omega
    · split <;> omega

namespace Binary64

/-- Rounding to 53 bits at most doubles a quotient or halves it. -/
theorem nearestMag_bounds (num den : Nat) :
    num / den ≤ 2 * nearestMag num den ∧ nearestMag num den ≤ 2 * (num / den) + 1 := by
  unfold nearestMag
  dsimp only
  split
  · have := divNearest_bounds num den
    omega
  · rename_i hq
    have hq0 : num / den ≠ 0 := fun h0 => hq (h0 ▸ by decide)
    obtain ⟨hl, hu⟩ := divNearest_bounds num (den * Nat.pow 2 ((num / den).log2 - 52))
    rw [← Nat.div_div_eq_div_mul] at hl hu
    generalize divNearest num (den * Nat.pow 2 ((num / den).log2 - 52)) = n at hl hu ⊢
    have hunit : Nat.pow 2 ((num / den).log2 - 52) ≤ num / den :=
      Nat.le_trans (Nat.pow_le_pow_right (by decide) (by omega)) (Nat.log2_self_le hq0)
    have hunit0 : 0 < Nat.pow 2 ((num / den).log2 - 52) := Nat.two_pow_pos _
    generalize num / den = q at hl hu hunit hunit0 ⊢
    generalize Nat.pow 2 (q.log2 - 52) = unit at hl hu hunit hunit0 ⊢
    have hdm := Nat.div_add_mod q unit
    have hmod := Nat.mod_lt q hunit0
    have hlow : unit * (q / unit) ≤ n * unit := by
      rw [Nat.mul_comm]
      exact Nat.mul_le_mul_right unit hl
    have hhigh : n * unit ≤ unit * (q / unit) + unit := by
      calc n * unit ≤ (q / unit + 1) * unit := Nat.mul_le_mul_right unit hu
        _ = unit * (q / unit) + unit := by rw [Nat.add_mul, Nat.one_mul, Nat.mul_comm]
    have hone : 1 ≤ q / unit := (Nat.one_le_div_iff hunit0).mpr hunit
    have hle : unit ≤ unit * (q / unit) := Nat.le_mul_of_pos_right unit hone
    omega

-- The value of these two is too large to be computed with.
attribute [local irreducible] one limit

theorem one_pos : 0 < one := by decide +kernel

theorem one_le_limit : 256 * one ≤ limit := by decide +kernel

theorem limit_le_one_mul_one : limit ≤ one * one := by decide +kernel

theorem roundQuotient_of_lt {num den : Nat} (h : nearestMag num den < limit) (neg : Bool) :
    roundQuotient neg num den = fin neg (nearestMag num den) := by
  rw [roundQuotient, if_pos h]

theorem roundQuotient_of_not_lt {num den : Nat} (h : ¬nearestMag num den < limit) (neg : Bool) :
    roundQuotient neg num den = inf neg := by
  rw [roundQuotient, if_neg h]

/-- A number that is neither negative nor a NaN. -/
def IsSpan : Binary64 → Prop
  | fin false _ | inf false => True
  | _ => False

theorem roundQuotient_isSpan (num den : Nat) : (roundQuotient false num den).IsSpan := by
  by_cases h : nearestMag num den < limit
  · rw [roundQuotient_of_lt h]
    exact trivial
  · rw [roundQuotient_of_not_lt h]
    exact trivial

theorem IsSpan.not_negative {x : Binary64} (hx : x.IsSpan) : x.lt zero = false := by
  match x, hx with
  | fin false a, _ => simp [lt, zero]
  | inf false, _ => rfl

theorem IsSpan.truncate {x : Binary64} (hx : x.IsSpan) :
    (∃ n, x.truncate = .ok n) ∨ x.truncate = .error .infinityToInteger := by
  match x, hx with
  | fin false a, _ => exact .inl ⟨_, rfl⟩
  | inf false, _ => exact .inr rfl

theorem div_fin {a mag : Nat} (hm : 0 < mag) :
    fin false a / fin false mag = roundQuotient false (one * a) mag :=
  if_neg (Nat.ne_of_gt hm)

theorem IsSpan.div {x : Binary64} (hx : x.IsSpan) {mag : Nat} (hm : 0 < mag) :
    (x / fin false mag).IsSpan := by
  match x, hx with
  | fin false a, _ =>
    rw [div_fin hm]
    exact roundQuotient_isSpan _ _
  | inf false, _ => trivial

theorem ofInt_error {n : Int} {o : Overflow} (h : ofInt n = .error o) : o = .integerTooLarge := by
  by_cases hlt : nearestMag (one * n.natAbs) 1 < limit
  · rw [ofInt, if_pos hlt] at h
    cases h
  · rw [ofInt, if_neg hlt] at h
    cases h
    rfl

theorem ofInt_ok {n : Int} (hn : 0 ≤ n) {x : Binary64} (h : ofInt n = .ok x) :
    ∃ mag, x = fin false mag ∧ mag < limit ∧ one * n.toNat ≤ 2 * mag := by
  have hneg : decide (n < 0) = false := by simpa using hn
  have habs : n.toNat = n.natAbs := by omega
  have hb := (nearestMag_bounds (one * n.natAbs) 1).1
  rw [Nat.div_one, ← habs] at hb
  rw [ofInt, hneg, ← habs] at h
  by_cases hlt : nearestMag (one * n.toNat) 1 < limit
  · rw [if_pos hlt] at h
    cases h
    exact ⟨_, rfl, hlt, hb⟩
  · rw [if_neg hlt] at h
    cases h

end Binary64

open Binary64

attribute [local irreducible] one limit

/-- The units of clock time last a finite time, a minute at most. -/
theorem TimeUnit.clockSeconds?_ok {u : TimeUnit} {x : Binary64} (h : u.clockSeconds? = some x) :
    ∃ mag, x = .fin false mag ∧ mag ≤ 60 * one := by
  cases u with
  | minutes => exact ⟨60 * one, by cases h; decide +kernel, by decide +kernel⟩
  | seconds => exact ⟨one, by cases h; decide +kernel, by decide +kernel⟩
  | milliseconds => exact ⟨nearestMag one (Nat.pow 10 3), by cases h; decide +kernel, by decide +kernel⟩
  | microseconds => exact ⟨nearestMag one (Nat.pow 10 6), by cases h; decide +kernel, by decide +kernel⟩
  | nanoseconds => exact ⟨nearestMag one (Nat.pow 10 9), by cases h; decide +kernel, by decide +kernel⟩
  | _ => cases h

/-- Whether a number was too large. A NaN is refused too, but is not large. -/
def Overflow.isTooLarge : Overflow → Bool
  | integerTooLarge | infinityToInteger => true
  | nanToInteger | notANumber _ => false

namespace Clock

/-- A clock whose beats have ticks and whose ticks last some finite time. -/
structure Ticking (c : Clock) : Prop where
  beat : 0 < c.ticksPerBeat
  tick : ∃ mag, 0 < mag ∧ c.tickDuration = .fin false mag

theorem minute_eq : minute = .fin false (60 * one) := by decide +kernel

theorem ofInt_of_tickLength_error {bpm ticksPerBeat : Int} {o : Overflow}
    (h : tickLength bpm ticksPerBeat = .error o) : ofInt (bpm * ticksPerBeat) = .error o := by
  unfold tickLength at h
  cases hn : ofInt (bpm * ticksPerBeat) with
  | error o' =>
    rw [hn] at h
    cases h
    rfl
  | ok x =>
    rw [hn] at h
    cases h

theorem tickLength_error {bpm ticksPerBeat : Int} {o : Overflow}
    (h : tickLength bpm ticksPerBeat = .error o) : o = .integerTooLarge :=
  ofInt_error (ofInt_of_tickLength_error h)

/-- The largest number of ticks a minute that can be converted still leaves a tick some time. -/
theorem tickLength_ok {bpm ticksPerBeat : Int} (hb : 0 < bpm) (ht : 0 < ticksPerBeat)
    {d : Binary64} (h : tickLength bpm ticksPerBeat = .ok d) :
    ∃ mag, 0 < mag ∧ d = .fin false mag := by
  have hpos : 0 < bpm * ticksPerBeat := Int.mul_pos hb ht
  unfold tickLength at h
  cases hn : ofInt (bpm * ticksPerBeat) with
  | error o =>
    rw [hn] at h
    cases h
  | ok x =>
    obtain ⟨n, rfl, hlt, hge⟩ := ofInt_ok (by omega) hn
    have hone : one ≤ 2 * n :=
      Nat.le_trans (Nat.le_mul_of_pos_right one (by omega)) hge
    have hn0 : 0 < n := by
      have := one_pos
      omega
    rw [hn] at h
    have hd : d = roundQuotient false (one * (60 * one)) n := by
      rw [← div_fin hn0, ← minute_eq]
      cases h
      rfl
    have hlow : 1 ≤ one * (60 * one) / n := by
      rw [Nat.one_le_div_iff hn0, Nat.mul_left_comm]
      have := limit_le_one_mul_one
      omega
    have hhigh : one * (60 * one) / n ≤ 120 * one := by
      refine Nat.div_le_of_le_mul ?_
      calc one * (60 * one) ≤ 2 * n * (60 * one) := Nat.mul_le_mul_right _ hone
        _ = n * (2 * (60 * one)) := by ac_rfl
        _ = n * (120 * one) := by rw [← Nat.mul_assoc 2]
    obtain ⟨hl, hu⟩ := nearestMag_bounds (one * (60 * one)) n
    have hfin : nearestMag (one * (60 * one)) n < limit := by
      have := one_le_limit
      have := one_pos
      omega
    exact ⟨nearestMag (one * (60 * one)) n, by omega, by rw [hd, roundQuotient_of_lt hfin]⟩

/-! ## The operations -/

section
variable {c : Clock}

theorem setTempo_ticking (hc : c.Ticking) {bpm ticksPerBeat : Int} (hb : 0 < bpm)
    (ht : 0 < ticksPerBeat) :
    (c.setTempo bpm ticksPerBeat).1.Ticking ∧
      ((c.setTempo bpm ticksPerBeat).2 = .ok () ∨
        (c.setTempo bpm ticksPerBeat).2 = .error (.overflow .integerTooLarge)) := by
  rcases he : c.setTempo bpm ticksPerBeat with ⟨c', r⟩
  cases setTempo_iff.mp he with
  | noBeats | noTicks => omega
  | overflow _ _ hd =>
    rw [tickLength_error hd]
    exact ⟨⟨ht, hc.tick⟩, .inr rfl⟩
  | set _ _ hd => exact ⟨⟨ht, tickLength_ok hb ht hd⟩, .inl rfl⟩

theorem advance_ticking (hc : c.Ticking) {ticks : Int} (ht : 0 ≤ ticks) :
    (c.advance ticks).1.Ticking ∧
      ((∃ due, (c.advance ticks).2 = .ok due) ∨
        (c.advance ticks).2 = .error (.overflow .integerTooLarge)) := by
  rcases he : c.advance ticks with ⟨c', r⟩
  cases advance_iff.mp he with
  | negative => omega
  | overflow _ hn =>
    rw [ofInt_error hn]
    exact ⟨⟨hc.beat, hc.tick⟩, .inr rfl⟩
  | due => exact ⟨⟨hc.beat, hc.tick⟩, .inl ⟨_, rfl⟩⟩

theorem advanceSeconds_ticking (hc : c.Ticking) {seconds : Binary64} (hs : seconds.IsSpan) :
    (c.advanceSeconds seconds).1.Ticking ∧
      ((∃ due, (c.advanceSeconds seconds).2 = .ok due) ∨
        (c.advanceSeconds seconds).2 = .error (.overflow .infinityToInteger)) := by
  obtain ⟨mag, hmag, htick⟩ := hc.tick
  have hq : (seconds / c.tickDuration).IsSpan := by
    rw [htick]
    exact hs.div hmag
  rcases he : c.advanceSeconds seconds with ⟨c', r⟩
  cases advanceSeconds_iff.mp he with
  | negative hneg =>
    rw [hs.not_negative] at hneg
    cases hneg
  | overflow _ ho =>
    rcases hq.truncate with ⟨n, hn⟩ | hinf
    · rw [hn] at ho
      cases ho
    · rw [hinf] at ho
      cases ho
      exact ⟨hc, .inr rfl⟩
  | due => exact ⟨⟨hc.beat, hc.tick⟩, .inl ⟨_, rfl⟩⟩

theorem advanceWait_musical (hc : c.Ticking) {w : Wait} (hw : w.InRange)
    (hu : w.unit.clockSeconds? = none) :
    ∃ ticks, 0 ≤ ticks ∧ c.advanceWait w.amount w.unit = c.advance ticks := by
  obtain ⟨hamount, hunit⟩ := hw
  have hbeat := hc.beat
  cases hw : w.unit with
  | ticks => exact ⟨w.amount, hamount, by simp only [advanceWait]⟩
  | beats =>
    exact ⟨w.amount * c.ticksPerBeat, Int.mul_nonneg hamount (by omega), by simp only [advanceWait]⟩
  | unknown name => exact absurd hw (hunit name)
  | _ =>
    rw [hw] at hu
    cases hu

/-- A wait in range is over some time, unless one of its numbers is too large: its amount or the
ticks since the anchor, or, in clock time, the ticks that the wait covers. -/
theorem advanceWait_ticking (hc : c.Ticking) {w : Wait} (hw : w.InRange) :
    (c.advanceWait w.amount w.unit).1.Ticking ∧
      ((∃ due, (c.advanceWait w.amount w.unit).2 = .ok due) ∨
        (c.advanceWait w.amount w.unit).2 = .error (.overflow .integerTooLarge) ∨
        ((c.advanceWait w.amount w.unit).2 = .error (.overflow .infinityToInteger) ∧
          w.unit.clockSeconds?.isSome)) := by
  cases hu : w.unit.clockSeconds? with
  | none =>
    obtain ⟨ticks, ht, he⟩ := advanceWait_musical hc hw hu
    rw [he]
    obtain ⟨hc', hok | ho⟩ := advance_ticking hc ht
    · exact ⟨hc', .inl hok⟩
    · exact ⟨hc', .inr (.inl ho)⟩
  | some perUnit =>
    obtain ⟨unitMag, rfl, -⟩ := TimeUnit.clockSeconds?_ok hu
    cases hn : ofInt w.amount with
    | error o =>
      rw [advanceWait_error hu hn, ofInt_error hn]
      exact ⟨hc, .inr (.inl rfl)⟩
    | ok n =>
      obtain ⟨mag, rfl, -, -⟩ := ofInt_ok hw.1 hn
      rw [advanceWait_ok hu hn]
      have hs : (fin false mag * fin false unitMag).IsSpan := roundQuotient_isSpan _ _
      obtain ⟨hc', hok | ho⟩ := advanceSeconds_ticking hc hs
      · exact ⟨hc', .inl hok⟩
      · exact ⟨hc', .inr (.inr ⟨ho, rfl⟩)⟩

theorem advanceWait_tooLarge (hc : c.Ticking) {w : Wait} (hw : 0 ≤ w.amount) {c' : Clock} {o : Overflow}
    (h : c.advanceWait w.amount w.unit = (c', .error (.overflow o))) : o.isTooLarge = true := by
  have hunit : ∀ name, w.unit ≠ .unknown name := by
    intro name hname
    rw [hname] at h
    cases h
  obtain ⟨-, ⟨due, hok⟩ | hlarge | ⟨hinfinite, -⟩⟩ := advanceWait_ticking hc ⟨hw, hunit⟩
  · rw [h] at hok
    cases hok
  · rw [h] at hlarge
    cases hlarge
    rfl
  · rw [h] at hinfinite
    cases hinfinite
    rfl

end

theorem setTempo_tooLarge {c c' : Clock} {bpm ticksPerBeat : Int} {o : Overflow}
    (h : c.setTempo bpm ticksPerBeat = (c', .error (.overflow o))) : o.isTooLarge = true := by
  cases setTempo_iff.mp h with
  | overflow _ _ ho =>
    rw [tickLength_error ho]
    rfl

theorem initial_ticking : initial.Ticking :=
  ⟨by decide +kernel, nearestMag (one * (60 * one)) (3840 * one), by decide +kernel, by decide +kernel⟩

end Clock

end Ostinato
