import Ostinato.Proofs.Emission
import Ostinato.Proofs.Rounding
import Ostinato.Proofs.Safety

/-!
# Virtual time never runs backwards

The time that a clock shows is computed from its anchor, and three operations move the anchor in
different ways: a wait in ticks leaves it, a wait in clock time moves it to the new time, and a tempo
moves it to the time there is. `Kept` ties the anchor, the ticks since and the time shown together.
Every operation that succeeds keeps it and leads onward, so a run in which no number is too large
never goes back, and its events come in the order of their times.
-/

namespace Ostinato

open Binary64

theorem Binary64.IsSpan.truncate_nonneg {x : Binary64} (hx : x.IsSpan) {n : Int}
    (h : x.truncate = .ok n) : 0 ≤ n := by
  match x, hx with
  | fin false a, _ =>
    cases h
    exact Int.natCast_nonneg _
  | inf false, _ => cases h

-- The value of these two is too large to be computed with.
attribute [local irreducible] one limit

namespace Clock

/-- The clock ticks and shows the time that its ticks since the anchor last at its tempo. -/
structure Kept (c : Clock) : Prop where
  ticking : c.Ticking
  anchor : c.anchor.IsTime
  since : 0 ≤ c.ticksSinceAnchor
  shown : ∃ n, ofInt c.ticksSinceAnchor = .ok n ∧ c.now = c.anchor + n * c.tickDuration

/-- The second clock is not behind the first. -/
structure Onward (c c' : Clock) : Prop where
  ticks : c.ticks ≤ c'.ticks
  now : c.now.le c'.now = true

section
variable {c c' : Clock} {due : Binary64}

/-- The time that some ticks last is finite or infinite, never a NaN. -/
theorem Ticking.span (h : c.Ticking) {ticks : Int} (ht : 0 ≤ ticks) {n : Binary64}
    (hn : ofInt ticks = .ok n) : (n * c.tickDuration).IsSpan := by
  obtain ⟨d, -, hd⟩ := h.tick
  obtain ⟨a, rfl, -, -⟩ := ofInt_ok ht hn
  rw [hd]
  exact mul_isSpan a d

theorem Kept.now_isTime (h : c.Kept) : c.now.IsTime := by
  obtain ⟨n, hn, hnow⟩ := h.shown
  rw [hnow]
  exact h.anchor.isSpan.add_isTime (h.ticking.span h.since hn)

/-- A clock that shows its anchor. -/
theorem Ticking.kept (h : c.Ticking) (hnow : c.now.IsTime) (ha : c.anchor = c.now)
    (hs : c.ticksSinceAnchor = 0) : c.Kept := by
  obtain ⟨d, -, hd⟩ := h.tick
  refine ⟨h, ha ▸ hnow, hs ▸ Int.le_refl 0, zero, by rw [hs, ofInt_zero], ?_⟩
  rw [hd, zero, zero_mul_fin, ha, hnow.add_zero]

theorem initial_kept : initial.Kept := by
  have hnow : initial.now = zero := by decide +kernel
  have hanchor : initial.anchor = initial.now := by decide +kernel
  have hsince : initial.ticksSinceAnchor = 0 := by decide +kernel
  have hticking := initial_ticking
  generalize initial = c at hnow hanchor hsince hticking ⊢
  exact hticking.kept (hnow ▸ zero_isTime) hanchor hsince

theorem Kept.onward_refl (h : c.Kept) : c.Onward c :=
  ⟨Int.le_refl _, h.now_isTime.isSpan.le_refl⟩

theorem Kept.onward_trans (h : c.Kept) (h' : c'.Kept) {c'' : Clock} (h'' : c''.Kept)
    (ha : c.Onward c') (hb : c'.Onward c'') : c.Onward c'' :=
  ⟨Int.le_trans ha.ticks hb.ticks,
    h.now_isTime.isSpan.le_trans h'.now_isTime.isSpan h''.now_isTime.isSpan ha.now hb.now⟩

/-! ## The operations -/

/-- More ticks since the same anchor last longer. -/
theorem Kept.advance (h : c.Kept) {ticks : Int} (ht : 0 ≤ ticks)
    (he : c.advance ticks = (c', .ok due)) : c'.Kept ∧ c.Onward c' ∧ due = c'.now := by
  obtain ⟨n, hn, hnow⟩ := h.shown
  have hsince := h.since
  cases advance_iff.mp he with
  | @due n' _ hn' =>
    have hlonger : (n * c.tickDuration).le (n' * c.tickDuration) = true := by
      obtain ⟨d, -, hd⟩ := h.ticking.tick
      obtain ⟨a, b, rfl, rfl, hab⟩ := ofInt_mono hsince (by omega) hn hn'
      rw [hd]
      exact mul_mono hab d
    have hspan := h.ticking.span hsince hn
    have hspan' := h.ticking.span (by omega) hn'
    refine ⟨⟨⟨h.ticking.beat, h.ticking.tick⟩, h.anchor, Int.add_nonneg hsince ht, n', hn', rfl⟩,
      ⟨?_, ?_⟩, rfl⟩
    · show c.ticks ≤ c.ticks + ticks
      omega
    · rw [hnow]
      exact h.anchor.isSpan.add_mono hspan hspan' hlonger

/-- The anchor moves to the new time. -/
theorem Kept.advanceSeconds (h : c.Kept) {seconds : Binary64} (hs : seconds.IsSpan)
    (he : c.advanceSeconds seconds = (c', .ok due)) : c'.Kept ∧ c.Onward c' ∧ due = c'.now := by
  obtain ⟨d, hd0, hd⟩ := h.ticking.tick
  cases advanceSeconds_iff.mp he with
  | @due whole _ hwhole =>
    have hcovered : 0 ≤ whole := by
      rw [hd] at hwhole
      exact (hs.div hd0).truncate_nonneg hwhole
    refine ⟨Ticking.kept ⟨h.ticking.beat, h.ticking.tick⟩ ?_ rfl rfl, ⟨?_, ?_⟩, rfl⟩
    · exact h.now_isTime.isSpan.add_isTime hs
    · show c.ticks ≤ c.ticks + whole
      omega
    · exact h.now_isTime.le_add hs

theorem Kept.advanceWait (h : c.Kept) {amount : Int} {unit : TimeUnit} (ha : 0 ≤ amount)
    (he : c.advanceWait amount unit = (c', .ok due)) : c'.Kept ∧ c.Onward c' ∧ due = c'.now := by
  cases advanceWait_iff.mp he with
  | ticks he => exact h.advance ha (advance_iff.mpr he)
  | beats he =>
    exact h.advance (Int.mul_nonneg ha (Int.le_of_lt h.ticking.beat)) (advance_iff.mpr he)
  | span hu hn he =>
    obtain ⟨mag, rfl, -⟩ := TimeUnit.clockSeconds?_ok hu
    obtain ⟨a, rfl, -, -⟩ := ofInt_ok ha hn
    exact h.advanceSeconds (mul_isSpan a mag) (advanceSeconds_iff.mpr he)

/-- A tempo moves the anchor to the time there is, and makes any clock tick. -/
theorem setTempo_ok {bpm ticksPerBeat : Int} (he : c.setTempo bpm ticksPerBeat = (c', .ok ())) :
    c'.Ticking ∧ c'.anchor = c.now ∧ c'.ticksSinceAnchor = 0 ∧ c'.ticks = c.ticks ∧
      c'.now = c.now := by
  cases setTempo_iff.mp he with
  | set hb ht hd => exact ⟨⟨ht, tickLength_ok hb ht hd⟩, rfl, rfl, rfl, rfl⟩

theorem Kept.setTempo (h : c.Kept) {bpm ticksPerBeat : Int}
    (he : c.setTempo bpm ticksPerBeat = (c', .ok ())) :
    c'.Kept ∧ c'.ticks = c.ticks ∧ c'.now = c.now := by
  obtain ⟨hticking, hanchor, hsince, hticks, hnow⟩ := setTempo_ok he
  exact ⟨hticking.kept (hnow ▸ h.now_isTime) (hanchor.trans hnow.symm) hsince, hticks, hnow⟩

end

end Clock

namespace Machine

/-! ## Steps -/

section
variable {m m' : Machine} {out : Step} {o : Overflow}

/-- A step that breaks off has met a number too large, or it is at a note made by hand. -/
theorem Stepped.isTooLarge (hs : Stepped m m' (.overflow o)) (h : m.clock.Kept) :
    o.isTooLarge = true ∨ m'.clock = m.clock ∧ ∃ s, m.instruction? = some (.looseSend s) := by
  cases hs with
  | broken hi hx =>
    obtain ⟨s, rfl, -⟩ := hx.exists_loose
    exact .inr ⟨rfl, s, hi⟩
  | waitOverflow _ hw hc => exact .inl (Clock.advanceWait_tooLarge h.ticking hw hc)
  | tempoOverflow _ hc => exact .inl (Clock.setTempo_tooLarge hc)

theorem Stepped.clock_eq_of_overflow (hs : Stepped m m' (.overflow o)) (h : m.clock.Kept)
    (ho : o.isTooLarge = false) : m'.clock = m.clock := by
  rcases hs.isTooLarge h with hlarge | ⟨hclock, -⟩
  · rw [ho] at hlarge
    cases hlarge
  · exact hclock

/-- The step lemma. -/
theorem Stepped.kept (hs : Stepped m m' out) (h : m.clock.Kept)
    (ho : ∀ o, out = .overflow o → o.isTooLarge = false) :
    m'.clock.Kept ∧ m.clock.Onward m'.clock := by
  have hbroken : ∀ o, out = .overflow o → m'.clock = m.clock := by
    rintro o rfl
    exact hs.clock_eq_of_overflow h (ho o rfl)
  cases hs with
  | waited _ hw hc =>
    obtain ⟨hkept, honward, -⟩ := h.advanceWait hw hc
    exact ⟨hkept, honward⟩
  | @tempoSet t c _ hc =>
    obtain ⟨hkept, hticks, hnow⟩ := h.setTempo hc
    refine ⟨hkept, Int.le_of_eq hticks.symm, ?_⟩
    show m.clock.now.le c.now = true
    rw [hnow]
    exact h.now_isTime.isSpan.le_refl
  | broken | waitOverflow | tempoOverflow =>
    rw [hbroken _ rfl]
    exact ⟨h, h.onward_refl⟩
  | _ => exact ⟨h, h.onward_refl⟩

/-- Time passes in waits only. -/
theorem Stepped.still (hs : Stepped m m' out) (h : m.clock.Kept)
    (ho : ∀ o, out = .overflow o → o.isTooLarge = false)
    (hw : ∀ due ticks, out ≠ .suspend due ticks) :
    m'.clock.ticks = m.clock.ticks ∧ m'.clock.now = m.clock.now := by
  have hbroken : ∀ o, out = .overflow o → m'.clock = m.clock := by
    rintro o rfl
    exact hs.clock_eq_of_overflow h (ho o rfl)
  cases hs with
  | waited => exact absurd rfl (hw _ _)
  | tempoSet _ hc => exact (h.setTempo hc).2
  | broken | waitOverflow | tempoOverflow =>
    rw [hbroken _ rfl]
    exact ⟨rfl, rfl⟩
  | _ => exact ⟨rfl, rfl⟩

theorem Stepped.tempo_proceeds (hs : Stepped m m' out) {t : Tempo}
    (hi : m.instruction? = some (.tempo t)) (due : Binary64) (ticks : Int) :
    out ≠ .suspend due ticks := by
  rintro rfl
  cases hs with
  | waited hi' =>
    rw [hi] at hi'
    cases hi'

theorem Stepped.due_eq {due : Binary64} {ticks : Int} (hs : Stepped m m' (.suspend due ticks))
    (h : m.clock.Kept) : due = m'.clock.now := by
  cases hs with
  | waited _ hw hc => exact (h.advanceWait hw hc).2.2

theorem Stepped.event_clock {e : Event} (hs : Stepped m m' (.emit e)) :
    e.time = m.clock.now ∧ e.tick = m.clock.ticks := by
  cases hs with
  | sent _ hnote =>
    obtain ⟨n, e', he, hsame⟩ := hnote.exists_event
    rw [hsame]
    unfold event at he
    split at he
    · cases he
    · split at he
      · cases he
      · split at he
        · cases he
        · cases he
          exact ⟨rfl, rfl⟩

end

/-! ## Runs -/

/-- Among the first `n` steps none meets a number too large. -/
def Smooth (m : Machine) (n : Nat) : Prop :=
  ∀ k < n, ∀ o, (m.steps k).step.2 = .overflow o → o.isTooLarge = false

section
variable {m : Machine} {n : Nat}

theorem Calm.smooth (hm : m.Calm n) : m.Smooth n := fun k hk o ho => absurd ho (hm k hk o)

theorem Smooth.kept (hm : m.Smooth n) (h : m.clock.Kept) {k : Nat} (hk : k ≤ n) :
    (m.steps k).clock.Kept := by
  induction k with
  | zero => exact h
  | succ k ih =>
    rw [steps_succ_last]
    exact ((m.steps k).stepped.kept (ih (by omega)) (hm k (by omega))).1

/-- The run lemma. -/
theorem Smooth.onward (hm : m.Smooth n) (h : m.clock.Kept) {i j : Nat} (hij : i ≤ j) (hj : j ≤ n) :
    (m.steps i).clock.Onward (m.steps j).clock := by
  induction j, hij using Nat.le_induction with
  | base => exact (hm.kept h hj).onward_refl
  | succ j hij ih =>
    have hi := hm.kept h (Nat.le_trans hij (Nat.le_of_succ_le hj))
    have hbefore := hm.kept h (Nat.le_of_succ_le hj)
    have hstep := (m.steps j).stepped.kept hbefore (hm j hj)
    rw [← steps_succ_last] at hstep
    exact hi.onward_trans hbefore hstep.1 (ih (Nat.le_of_succ_le hj)) hstep.2

theorem Smooth.still (hm : m.Smooth n) (h : m.clock.Kept) {i j : Nat} (hij : i ≤ j) (hj : j ≤ n)
    (hw : ∀ k, i ≤ k → k < j → ∀ due ticks, (m.steps k).step.2 ≠ .suspend due ticks) :
    (m.steps j).clock.now = (m.steps i).clock.now := by
  induction j, hij using Nat.le_induction with
  | base => rfl
  | succ j hij ih =>
    have hkept := hm.kept h (Nat.le_of_succ_le hj)
    have hstep := (m.steps j).stepped.still hkept (hm j hj) (hw j hij (Nat.lt_succ_self j))
    rw [steps_succ_last, hstep.2]
    exact ih (Nat.le_of_succ_le hj) fun k hk hkj => hw k hk (Nat.lt_succ_of_lt hkj)

/-- The order in which events come. -/
def InTime (a b : Event) : Prop := a.time.le b.time = true ∧ a.tick ≤ b.tick

theorem Smooth.emitted (hm : m.Smooth n) (h : m.clock.Kept) {k : Nat} (hk : k ≤ n) :
    (m.emitted k).Pairwise InTime ∧
      ∀ e ∈ m.emitted k, ∃ i < k, (m.steps i).step.2 = .emit e := by
  induction k with
  | zero => simp
  | succ k ih =>
    obtain ⟨hpair, hfrom⟩ := ih (by omega)
    rw [emitted_succ]
    cases hout : (m.steps k).step.2 with
    | emit e =>
      refine ⟨List.pairwise_append.mpr ⟨hpair, List.pairwise_singleton _ e, fun a ha b hb => ?_⟩,
        fun a ha => ?_⟩
      · cases List.mem_singleton.mp hb
        obtain ⟨i, hi, ha⟩ := hfrom a ha
        have hold := (m.steps i).stepped
        rw [ha] at hold
        have hnew := (m.steps k).stepped
        rw [hout] at hnew
        have honward := hm.onward h (Nat.le_of_lt hi) (by omega)
        rw [InTime, hold.event_clock.1, hold.event_clock.2, hnew.event_clock.1, hnew.event_clock.2]
        exact ⟨honward.now, honward.ticks⟩
      · rcases List.mem_append.mp ha with ha | ha
        · obtain ⟨i, hi, ha⟩ := hfrom a ha
          exact ⟨i, by omega, ha⟩
        · cases List.mem_singleton.mp ha
          exact ⟨k, by omega, hout⟩
    | _ =>
      simp only [Step.event?, Option.toList_none, List.append_nil]
      refine ⟨hpair, fun a ha => ?_⟩
      obtain ⟨i, hi, ha⟩ := hfrom a ha
      exact ⟨i, by omega, ha⟩

end

theorem load_kept (p : Program) : (load p).clock.Kept := by
  rw [load_clock]
  exact Clock.initial_kept

/-- **Virtual time never runs backwards.** As long as no number is too large, the clock of any program
only goes onward, and in waits only; a tempo changes neither seconds nor ticks. So events come in the
order of their times. Each carries the values of the clock at its step, and those that follow a
wait, up to the next one, have the time at which it was due. -/
theorem time_never_runs_back (p : Program) (n : Nat)
    (hsmooth : ∀ k < n, ∀ o, ((load p).steps k).step.2 = .overflow o → o.isTooLarge = false) :
    (∀ i j, i ≤ j → j ≤ n →
        ((load p).steps i).clock.ticks ≤ ((load p).steps j).clock.ticks ∧
          ((load p).steps i).clock.now.le ((load p).steps j).clock.now = true) ∧
      (∀ k < n, ∀ t, ((load p).steps k).instruction? = some (.tempo t) →
        ((load p).steps (k + 1)).clock.ticks = ((load p).steps k).clock.ticks ∧
          ((load p).steps (k + 1)).clock.now = ((load p).steps k).clock.now) ∧
      ((load p).emitted n).Pairwise (fun a b => a.time.le b.time = true ∧ a.tick ≤ b.tick) ∧
      (∀ k < n, ∀ e, ((load p).steps k).step.2 = .emit e →
        e.time = ((load p).steps k).clock.now ∧ e.tick = ((load p).steps k).clock.ticks) ∧
      ∀ i < n, ∀ due ticks, ((load p).steps i).step.2 = .suspend due ticks →
        due = ((load p).steps (i + 1)).clock.now ∧
          ∀ j < n, i < j →
            (∀ k, i < k → k < j → ∀ due' ticks', ((load p).steps k).step.2 ≠ .suspend due' ticks') →
            ∀ e, ((load p).steps j).step.2 = .emit e → e.time = due := by
  have hm : (load p).Smooth n := hsmooth
  have hload := load_kept p
  refine ⟨fun i j hij hj => ?_, fun k hk t ht => ?_, (hm.emitted hload (Nat.le_refl n)).1,
    fun k hk e he => ?_, fun i hi due ticks hs => ?_⟩
  · have honward := hm.onward hload hij hj
    exact ⟨honward.ticks, honward.now⟩
  · have hs := ((load p).steps k).stepped
    rw [steps_succ_last]
    exact hs.still (hm.kept hload (Nat.le_of_lt hk)) (hm k hk) (hs.tempo_proceeds ht)
  · have hs := ((load p).steps k).stepped
    rw [he] at hs
    exact hs.event_clock
  · have hwait := ((load p).steps i).stepped
    rw [hs, ← steps_succ_last] at hwait
    have hdue := hwait.due_eq (hm.kept hload (Nat.le_of_lt hi))
    refine ⟨hdue, fun j hj hij hw e he => ?_⟩
    have hsend := ((load p).steps j).stepped
    rw [he] at hsend
    rw [hsend.event_clock.1, hdue]
    exact hm.still hload hij (Nat.le_of_lt hj) fun k hk => hw k hk

/-- A program that waits in ticks, in clock time, not at all and at several tempos, twice. -/
def mixedTimes : Program where
  instructions := #[
    .send ⟨true, 0, 60, 90, none, ⟨1, 1⟩⟩, .wait ⟨3, .ticks, ⟨2, 1⟩⟩, .tempo ⟨90, 480, ⟨3, 1⟩⟩,
    .send ⟨false, 0, 60, 0, none, ⟨4, 1⟩⟩, .wait ⟨5, .milliseconds, ⟨5, 1⟩⟩,
    .wait ⟨0, .beats, ⟨6, 1⟩⟩, .send ⟨true, 9, 36, 100, some "drums", ⟨7, 1⟩⟩,
    .wait ⟨2, .beats, ⟨8, 1⟩⟩, .tempo ⟨7, 11, ⟨9, 1⟩⟩, .send ⟨false, 9, 36, 0, some "drums", ⟨10, 1⟩⟩,
    .jump ⟨"again", some 1, some 0, ⟨11, 1⟩⟩]
  labels := [("again", 0)]
  jumpSites := [⟨10, "again", 0, some 1⟩]

theorem time_never_runs_back_mixed :
    (∀ k < 23, ∀ o, ((load mixedTimes).steps k).step.2 = .overflow o → o.isTooLarge = false) ∧
      ((load mixedTimes).steps 23).state = .halted ∧ ((load mixedTimes).emitted 23).length = 8 ∧
      ((load mixedTimes).emitted 23).Pairwise
        (fun a b => a.time.le b.time = true ∧ a.tick ≤ b.tick) := by
  have hsmooth : ∀ k < 23, ∀ o, ((load mixedTimes).steps k).step.2 = .overflow o →
      o.isTooLarge = false := by
    have hnone : ∀ k < 23, ((load mixedTimes).steps k).step.2.overflow? = none := by
      decide +kernel
    exact fun k hk o ho => absurd ho (Step.ne_overflow (hnone k hk) o)
  exact ⟨hsmooth, by decide +kernel, by decide +kernel,
    (time_never_runs_back mixedTimes 23 hsmooth).2.2.1⟩

end Machine

end Ostinato
