import Ostinato.Proofs.Drift

/-!
# Numbers that no clock can choke on

A number overflows only if it is very large. In a program whose notes have numbers for values, all of
them `Modest`, no step does within `reach` many of them: each step adds at most `range` to the ticks
that the clock has to convert, and a tick is never so short that a wait covers too many. `Modest` is
that invariant, here of clocks, with the number of steps; the step lemma is `Stepped.modest`.
-/

namespace Ostinato

open Binary64

/-- A bound on the numbers of a program and on its steps. -/
def reach : Nat := Nat.pow 2 200

/-- What two numbers of a program can come to. -/
def range : Nat := reach * reach

namespace Binary64

theorem reach_pos : 0 < reach := Nat.two_pow_pos 200

theorem range_le_one : range ≤ one := by decide +kernel

/-- There is room for more than that: not even the exponents come near. -/
theorem fits : 1024 * (one * (reach * range)) ≤ limit := by decide +kernel

theorem range_pos : 0 < range := Nat.mul_pos reach_pos reach_pos

theorem reach_le_range : reach ≤ range := Nat.le_mul_of_pos_right reach reach_pos

-- All that is used of these is how they compare.
attribute [local irreducible] one limit reach range

theorem fit_pos : 0 < one * (reach * range) :=
  Nat.mul_pos one_pos (Nat.mul_pos reach_pos range_pos)

theorem ticks_fit : 2 * (one * (reach * range)) + 1 < limit := by
  have := fits
  have := fit_pos
  omega

theorem tempo_fits : 2 * (one * range) + 1 < limit := by
  have hle : one * range ≤ one * (reach * range) :=
    Nat.mul_le_mul_left one (Nat.le_mul_of_pos_left range reach_pos)
  have := ticks_fit
  omega

theorem amount_le : one * reach ≤ one * (reach * range) :=
  Nat.mul_le_mul_left one (Nat.le_mul_of_pos_right reach range_pos)

theorem amount_fits : 2 * (one * reach) + 1 < limit := by
  have := amount_le
  have := ticks_fit
  omega

theorem span_fits : 2 * (180 * one * reach) + 1 < limit := by
  have hassoc : 180 * one * reach = 180 * (one * reach) := Nat.mul_assoc ..
  have := amount_le
  have := fits
  have := fit_pos
  omega

theorem quotient_fits : 2 * (range * (361 * one * reach)) + 1 < limit := by
  have hassoc : range * (361 * one * reach) = 361 * (one * (reach * range)) := by ring
  have := fits
  have := fit_pos
  omega

theorem roundQuotient_fits {num den bound : Nat} (h : num / den ≤ bound)
    (hbound : 2 * bound + 1 < limit) :
    roundQuotient false num den = fin false (nearestMag num den) ∧
      nearestMag num den ≤ 2 * bound + 1 := by
  have hle : nearestMag num den ≤ 2 * bound + 1 :=
    Nat.le_trans (nearestMag_bounds num den).2 (by omega)
  exact ⟨roundQuotient_of_lt (Nat.lt_of_le_of_lt hle hbound) false, hle⟩

theorem ofInt_fits {n : Int} (h0 : 0 ≤ n) {bound : Nat} (h : n ≤ bound)
    (hbound : 2 * (one * bound) + 1 < limit) :
    ∃ mag, ofInt n = .ok (fin false mag) ∧ mag ≤ 2 * (one * bound) + 1 := by
  have hneg : decide (n < 0) = false := by simpa using h0
  have hle : nearestMag (one * n.natAbs) 1 ≤ 2 * (one * bound) + 1 := by
    have hbounds := (nearestMag_bounds (one * n.natAbs) 1).2
    rw [Nat.div_one] at hbounds
    have hmul : one * n.natAbs ≤ one * bound := Nat.mul_le_mul_left one (by omega)
    omega
  refine ⟨nearestMag (one * n.natAbs) 1, ?_, hle⟩
  rw [ofInt, if_pos (Nat.lt_of_le_of_lt hle hbound), hneg]

end Binary64

attribute [local irreducible] one limit reach range

namespace Clock

/-- A clock that has made at most `n` steps of a program with modest numbers. -/
structure Modest (c : Clock) (n : Nat) : Prop where
  beat : 0 < c.ticksPerBeat ∧ c.ticksPerBeat ≤ reach
  since : 0 ≤ c.ticksSinceAnchor ∧ c.ticksSinceAnchor ≤ (n * range : Nat)
  tick : ∃ mag, c.tickDuration = fin false mag ∧ one ≤ mag * range

section
variable {c c' : Clock} {n : Nat}

/-- A modest tempo gives a tick some length: a minute has room for each of its ticks, of which there
are at most `range`. -/
theorem tickLength_modest {bpm ticksPerBeat : Int} (hb : 0 < bpm) (hb' : bpm ≤ reach)
    (ht : 0 < ticksPerBeat) (ht' : ticksPerBeat ≤ reach) :
    ∃ mag, tickLength bpm ticksPerBeat = .ok (fin false mag) ∧ one ≤ mag * range := by
  have hpos : 0 < bpm * ticksPerBeat := Int.mul_pos hb ht
  have hle : bpm * ticksPerBeat ≤ range :=
    calc bpm * ticksPerBeat ≤ reach * reach :=
          Int.mul_le_mul hb' ht' (Int.le_of_lt ht) (Int.natCast_nonneg reach)
      _ = (range : Nat) := by rw [range, Int.natCast_mul]
  obtain ⟨a, ha, hupper⟩ := ofInt_fits (Int.le_of_lt hpos) hle tempo_fits
  obtain ⟨a', ha', -, hlower⟩ := ofInt_ok (Int.le_of_lt hpos) ha
  cases ha'
  have hone := one_pos
  have ha0 : 0 < a := by
    have := Nat.le_mul_of_pos_right one (show 0 < (bpm * ticksPerBeat).toNat by omega)
    omega
  have hlength : tickLength bpm ticksPerBeat = .ok (roundQuotient false (one * (60 * one)) a) := by
    rw [tickLength, ha, ← div_fin ha0, ← minute_eq]
    rfl
  have hfinite : nearestMag (one * (60 * one)) a < limit := by
    by_contra hnot
    obtain ⟨mag, -, hmag⟩ := tickLength_ok hb ht hlength
    rw [roundQuotient_of_not_lt hnot] at hmag
    cases hmag
  rw [roundQuotient_of_lt hfinite] at hlength
  refine ⟨_, hlength, ?_⟩
  have hrounded := (nearestMag_bounds (one * (60 * one)) a).1
  generalize nearestMag (one * (60 * one)) a = mag at hrounded ⊢
  have hwhole : one * (60 * one) < one * (3 * range * (2 * mag + 1)) :=
    calc one * (60 * one) < a * (one * (60 * one) / a + 1) := Nat.lt_mul_div_succ _ ha0
      _ ≤ 3 * (one * range) * (2 * mag + 1) := by
        have hpos : 0 < one * range := Nat.mul_pos hone range_pos
        exact Nat.mul_le_mul (by omega) (by omega)
      _ = one * (3 * range * (2 * mag + 1)) := by ring
  have hcancelled := Nat.lt_of_mul_lt_mul_left hwhole
  have hsplit : 3 * range * (2 * mag + 1) = 6 * (mag * range) + 3 * range := by ring
  have := range_le_one
  omega

theorem setTempo_modest {bpm ticksPerBeat : Int} (hb : 0 < bpm) (hb' : bpm ≤ reach)
    (ht : 0 < ticksPerBeat) (ht' : ticksPerBeat ≤ reach) (c : Clock) (n : Nat) :
    ∃ c', c.setTempo bpm ticksPerBeat = (c', .ok ()) ∧ c'.Modest n := by
  obtain ⟨mag, hlength, hmag⟩ := tickLength_modest hb hb' ht ht'
  refine ⟨_, setTempo_iff.mpr (.set hb ht hlength), ?_⟩
  exact ⟨⟨ht, ht'⟩, ⟨Int.le_refl 0, Int.natCast_nonneg _⟩, mag, rfl, hmag⟩

theorem setTempo_positive {bpm ticksPerBeat : Int} {r : Except ClockFault Unit}
    (h : c.setTempo bpm ticksPerBeat = (c', r)) (hr : ∀ f, r ≠ .error (.tempo f)) :
    0 < bpm ∧ 0 < ticksPerBeat := by
  cases setTempo_iff.mp h with
  | noBeats | noTicks => exact absurd rfl (hr _)
  | overflow hb ht | set hb ht => exact ⟨hb, ht⟩

theorem Modest.mono (h : c.Modest n) {k : Nat} (hk : n ≤ k) : c.Modest k := by
  obtain ⟨hbeat, ⟨h0, hle⟩, htick⟩ := h
  refine ⟨hbeat, ⟨h0, Int.le_trans hle ?_⟩, htick⟩
  exact Int.ofNat_le.mpr (Nat.mul_le_mul_right range hk)

theorem Modest.advance (h : c.Modest n) (hn : n < reach) {ticks : Int} (h0 : 0 ≤ ticks)
    (hle : ticks ≤ range) : ∃ c' due, c.advance ticks = (c', .ok due) ∧ c'.Modest (n + 1) := by
  obtain ⟨hbeat, ⟨hsince, hsum⟩, htick⟩ := h
  have hsucc : (n + 1) * range = n * range + range := Nat.succ_mul n range
  have hreach : (n + 1) * range ≤ reach * range := Nat.mul_le_mul_right range hn
  have hfits : c.ticksSinceAnchor + ticks ≤ (reach * range : Nat) := by omega
  obtain ⟨mag, hmag, -⟩ := ofInt_fits (by omega) hfits ticks_fit
  refine ⟨_, _, advance_eq h0 hmag, hbeat, ⟨?_, ?_⟩, htick⟩
  · show 0 ≤ c.ticksSinceAnchor + ticks
    omega
  · show c.ticksSinceAnchor + ticks ≤ ((n + 1) * range : Nat)
    omega

theorem Modest.advanceSeconds (h : c.Modest n) {mag : Nat} (hmag : mag ≤ 361 * one * reach) :
    ∃ c' due, c.advanceSeconds (fin false mag) = (c', .ok due) ∧ c'.Modest (n + 1) := by
  obtain ⟨hbeat, -, d, hd, hlong⟩ := h
  have hd0 : 0 < d := by
    rcases Nat.eq_zero_or_pos d with rfl | hpos
    · have := one_pos
      omega
    · exact hpos
  have hquotient : one * mag / d ≤ range * (361 * one * reach) := by
    apply Nat.div_le_of_le_mul
    calc one * mag ≤ d * range * (361 * one * reach) := Nat.mul_le_mul hlong hmag
      _ = d * (range * (361 * one * reach)) := Nat.mul_assoc ..
  have hspan : fin false mag / c.tickDuration = fin false (nearestMag (one * mag) d) := by
    rw [hd, div_fin hd0, (roundQuotient_fits hquotient quotient_fits).1]
  have hwhole : (fin false mag / c.tickDuration).truncate =
      .ok (nearestMag (one * mag) d / one : Nat) := by
    rw [hspan]
    rfl
  refine ⟨_, _, advanceSeconds_iff.mpr (.due (IsSpan.not_negative trivial) hwhole), ?_⟩
  exact ⟨hbeat, ⟨Int.le_refl 0, Int.natCast_nonneg _⟩, d, hd, hlong⟩

theorem Modest.advanceWait (h : c.Modest n) (hn : n < reach) {amount : Int} {unit : TimeUnit}
    (h0 : 0 ≤ amount) (hle : amount ≤ reach) :
    (∃ c' due, c.advanceWait amount unit = (c', .ok due) ∧ c'.Modest (n + 1)) ∨
      ∃ f, c.advanceWait amount unit = (c, .error (.advance f)) := by
  cases hu : unit.clockSeconds? with
  | none =>
    cases unit with
    | ticks => exact .inl (h.advance hn h0 (Int.le_trans hle (Int.ofNat_le.mpr reach_le_range)))
    | beats =>
      refine .inl (h.advance hn (Int.mul_nonneg h0 (Int.le_of_lt h.beat.1)) ?_)
      calc amount * c.ticksPerBeat ≤ reach * reach :=
            Int.mul_le_mul hle h.beat.2 (Int.le_of_lt h.beat.1) (Int.natCast_nonneg reach)
        _ = (range : Nat) := by rw [range, Int.natCast_mul]
    | unknown name => exact .inr ⟨_, rfl⟩
    | _ => cases hu
  | some perUnit =>
    obtain ⟨u, rfl, hu60⟩ := TimeUnit.clockSeconds?_ok hu
    obtain ⟨a, ha, hupper⟩ := ofInt_fits h0 hle amount_fits
    have hproduct : a * u / one ≤ 180 * one * reach := by
      apply Nat.div_le_of_le_mul
      have hpos : 0 < one * reach := Nat.mul_pos one_pos reach_pos
      calc a * u ≤ 3 * (one * reach) * (60 * one) := Nat.mul_le_mul (by omega) hu60
        _ = one * (180 * one * reach) := by ring
    obtain ⟨hspan, hmag⟩ := roundQuotient_fits hproduct span_fits
    rw [advanceWait_ok hu ha]
    refine .inl ?_
    show ∃ c' due, c.advanceSeconds (roundQuotient false (a * u) one) = (c', .ok due) ∧
      c'.Modest (n + 1)
    rw [hspan]
    refine h.advanceSeconds (Nat.le_trans hmag ?_)
    have hpos : 0 < one * reach := Nat.mul_pos one_pos reach_pos
    rw [Nat.mul_assoc, Nat.mul_assoc]
    omega

end

theorem initial_modest : initial.Modest 0 := by
  have hbpm : defaultBpm ≤ reach := by decide +kernel
  have hbeat : defaultTicksPerBeat ≤ reach := by decide +kernel
  obtain ⟨c', hset, hmodest⟩ := setTempo_modest (by decide) hbpm (by decide) hbeat unset 0
  rw [initial, hset]
  exact hmodest

end Clock

/-! ## Programs with modest numbers -/

def SettingValue.isNumber : SettingValue → Bool
  | .number _ => true
  | _ => false

theorem SettingValue.asNumber_of_isNumber {v : SettingValue} (h : v.isNumber = true) :
    ∃ n, v.asNumber = .ok n := by
  cases v with
  | number n => exact ⟨n, rfl⟩
  | _ => cases h

/-- None of the numbers that the clock computes with is beyond `reach`, and notes have numbers. -/
def Statement.Modest : Statement → Prop
  | .looseSend s => s.channel.isNumber = true ∧ s.velocity.isNumber = true
  | .wait w => w.amount ≤ reach
  | .tempo t => t.bpm ≤ reach ∧ t.ticksPerBeat ≤ reach
  | _ => True

instance Statement.Modest.decidable : (s : Statement) → Decidable s.Modest
  | .wait w => inferInstanceAs (Decidable (w.amount ≤ reach))
  | .tempo t => inferInstanceAs (Decidable (t.bpm ≤ reach ∧ t.ticksPerBeat ≤ reach))
  | .looseSend s =>
    inferInstanceAs (Decidable (s.channel.isNumber = true ∧ s.velocity.isNumber = true))
  | .send _ | .jump _ | .label .. | .loop .. | .play _ | .setting _ => .isTrue trivial

def Program.Modest (p : Program) : Prop := ∀ s ∈ p.instructions.toList, s.Modest

instance Program.Modest.decidable (p : Program) : Decidable p.Modest :=
  inferInstanceAs (Decidable (∀ s ∈ p.instructions.toList, s.Modest))

namespace Machine

section
variable {m m' : Machine} {out : Step} {n : Nat}

theorem modest_instruction (hp : m.program.Modest) {s : Statement} (hi : m.instruction? = some s) :
    s.Modest :=
  hp s (Program.mem_of_at? (instruction?_eq_some.mp hi).2)

theorem NoteOf.modest {s : Statement} {o : Overflow} (h : m.NoteOf s (.error (.inr o))) :
    ¬s.Modest := by
  obtain ⟨l, rfl, hx⟩ := h.exists_loose
  rintro ⟨hchannel, hvelocity⟩
  obtain ⟨channel, hc⟩ := SettingValue.asNumber_of_isNumber hchannel
  obtain ⟨velocity, hv⟩ := SettingValue.asNumber_of_isNumber hvelocity
  rw [looseEvent_of_numbers hc hv] at hx
  cases he : m.event ⟨l.on, channel, l.pitch, velocity, none, l.pos⟩ <;> rw [he] at hx <;> cases hx

/-- The step lemma. -/
theorem Stepped.modest (hs : Stepped m m' out) (hp : m.program.Modest) (h : m.clock.Modest n)
    (hn : n < reach) : (∀ o, out ≠ .overflow o) ∧ m'.clock.Modest (n + 1) := by
  have hsame : m.clock.Modest (n + 1) := h.mono (Nat.le_succ n)
  have htempo {t : Tempo} (hi : m.instruction? = some (.tempo t)) (hb : 0 < t.bpm)
      (ht : 0 < t.ticksPerBeat) : ∃ c', m.clock.setTempo t.bpm t.ticksPerBeat = (c', .ok ()) ∧
        c'.Modest (n + 1) := by
    obtain ⟨hb', ht'⟩ := modest_instruction hp hi
    exact Clock.setTempo_modest hb hb' ht ht' m.clock (n + 1)
  cases hs with
  | finished | ended | lost | sent | jumped | refused => exact ⟨by simp, hsame⟩
  | broken hi hx => exact absurd (modest_instruction hp hi) hx.modest
  | waited hi h0 hc =>
    refine ⟨by simp, ?_⟩
    rcases h.advanceWait hn h0 (modest_instruction hp hi) with ⟨c', due, hc', hmodest⟩ | ⟨f, hc'⟩
    · rw [hc'] at hc
      cases hc
      exact hmodest
    · rw [hc'] at hc
      cases hc
  | waitOverflow hi h0 hc =>
    rcases h.advanceWait hn h0 (modest_instruction hp hi) with ⟨c', due, hc', -⟩ | ⟨f, hc'⟩
    all_goals
      rw [hc'] at hc
      cases hc
  | tempoSet hi hc =>
    obtain ⟨hb, ht⟩ := Clock.setTempo_positive hc (by simp)
    obtain ⟨c', hc', hmodest⟩ := htempo hi hb ht
    rw [hc'] at hc
    cases hc
    exact ⟨by simp, hmodest⟩
  | tempoOverflow hi hc =>
    obtain ⟨hb, ht⟩ := Clock.setTempo_positive hc (by simp)
    obtain ⟨c', hc', -⟩ := htempo hi hb ht
    rw [hc'] at hc
    cases hc

/-- The run lemma. -/
theorem steps_modest {p : Program} (hp : p.Modest) {n : Nat} (hn : n ≤ reach) :
    ((load p).steps n).clock.Modest n ∧ (load p).Calm n := by
  induction n with
  | zero =>
    refine ⟨?_, fun k hk => absurd hk (Nat.not_lt_zero k)⟩
    show (load p).clock.Modest 0
    rw [load_clock]
    exact Clock.initial_modest
  | succ n ih =>
    obtain ⟨hclock, hcalm⟩ := ih (Nat.le_of_succ_le hn)
    have hprogram : ((load p).steps n).program = p := after_program _ _
    have hmodest : ((load p).steps n).program.Modest := by rwa [hprogram]
    have hstep := ((load p).steps n).stepped.modest hmodest hclock hn
    rw [steps_succ_last]
    exact ⟨hstep.2, hcalm.succ hstep.1⟩

end

end Machine

end Ostinato
