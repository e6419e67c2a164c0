import Ostinato.Proofs.Comparing
import Ostinato.Proofs.Time

/-!
# What is still to come

A machine that runs into a number too large for its clock is `Jammed`: the instruction stays where it
is, and every further attempt at it meets a number that is no smaller. So is one that runs into a note
with a value that is no number. A machine that was loaded and stepped, overflows included, is then
`Orderly`: its clock is kept or it is jammed for good. Whatever an orderly machine still emits, it
emits no earlier than its clock shows.
-/

namespace Ostinato

open Binary64

-- The value of these two is too large to be computed with.
attribute [local irreducible] one limit

/-! ## Numbers too large for a clock -/

theorem Binary64.ofInt_error_mono {m n : Int} (hm : 0 ≤ m) (h : m ≤ n) {o : Overflow}
    (he : ofInt m = .error o) : ∃ o', ofInt n = .error o' := by
  have habs : one * m.natAbs ≤ one * n.natAbs := Nat.mul_le_mul_left one (by omega)
  by_cases hn : nearestMag (one * n.natAbs) 1 < limit
  · rw [ofInt, if_pos (Nat.lt_of_le_of_lt (nearestMag_mono habs 1) hn)] at he
    cases he
  · rw [ofInt, if_neg hn]
    exact ⟨_, rfl⟩

theorem Binary64.IsTime.isNumber {x : Binary64} (hx : x.IsTime) : x.IsNumber := by
  match x, hx with
  | fin false a, _ => trivial
  | inf false, _ => trivial

namespace Clock

section
variable {c c' : Clock} {o : Overflow}

/-- What the clock is like after a number was too large: a request like the last one does not
succeed either. -/
structure Strained (c c' : Clock) : Prop where
  now : c'.now = c.now
  since : 0 ≤ c'.ticksSinceAnchor
  beat : c'.ticksPerBeat = c.ticksPerBeat

theorem advance_strained (hs : 0 ≤ c.ticksSinceAnchor) {ticks : Int}
    (he : c.advance ticks = (c', .error (.overflow o))) :
    c.Strained c' ∧ ∃ c'' o', c'.advance ticks = (c'', .error (.overflow o')) := by
  cases advance_iff.mp he with
  | overflow ht hn =>
    obtain ⟨o', hn'⟩ := ofInt_error_mono (n := c.ticksSinceAnchor + ticks + ticks) (by omega)
      (by omega) hn
    refine ⟨⟨rfl, ?_, rfl⟩, _, o', advance_iff.mpr (.overflow ht hn')⟩
    show 0 ≤ c.ticksSinceAnchor + ticks
    omega

theorem advanceWait_strained (hs : 0 ≤ c.ticksSinceAnchor) {amount : Int} {unit : TimeUnit}
    (he : c.advanceWait amount unit = (c', .error (.overflow o))) :
    c.Strained c' ∧ ∃ c'' o', c'.advanceWait amount unit = (c'', .error (.overflow o')) := by
  cases hu : unit.clockSeconds? with
  | none =>
    cases unit with
    | ticks => exact advance_strained hs he
    | beats =>
      obtain ⟨hstrained, hagain⟩ := advance_strained hs he
      refine ⟨hstrained, ?_⟩
      rw [advanceWait, hstrained.beat]
      exact hagain
    | unknown name => cases he
    | _ => cases hu
  | some perUnit =>
    obtain rfl := advanceWait_clockTime_refused hu he
    exact ⟨⟨rfl, hs, rfl⟩, _, _, he⟩

theorem setTempo_strained {bpm ticksPerBeat : Int}
    (he : c.setTempo bpm ticksPerBeat = (c', .error (.overflow o))) :
    c'.now = c.now ∧ 0 ≤ c'.ticksSinceAnchor ∧
      ∃ c'' o', c'.setTempo bpm ticksPerBeat = (c'', .error (.overflow o')) := by
  cases setTempo_iff.mp he with
  | overflow hb ht hn => exact ⟨rfl, Int.le_refl 0, _, _, setTempo_iff.mpr (.overflow hb ht hn)⟩

end

end Clock

namespace Machine

section
variable {m m' : Machine} {out : Step}

/-! ## Jammed machines -/

/-- A machine whose next step breaks off. -/
structure Jammed (m : Machine) : Prop where
  overflows : ∃ o, m.step.2 = .overflow o
  since : 0 ≤ m.clock.ticksSinceAnchor

theorem step_of_instruction {s : Statement} (hi : m.instruction? = some s) :
    m.step = m.fetched.execute s := by
  obtain ⟨hf, hs⟩ := instruction?_eq_some.mp hi
  have hlt := (Program.lt_of_at? hs).2
  have hip : m.ip ≠ m.program.length := by omega
  unfold step
  rw [hf, if_neg Bool.false_ne_true]
  dsimp only
  rw [if_neg hip, hs]
  rfl

theorem step_wait_overflow {w : Wait} {c : Clock} {o : Overflow}
    (hi : m.instruction? = some (.wait w)) (hw : 0 ≤ w.amount)
    (hc : m.clock.advanceWait w.amount w.unit = (c, .error (.overflow o))) :
    m.step.2 = .overflow o := by
  rw [step_of_instruction hi, execute, executeWait, if_neg (by omega)]
  simp only [fetched, hc]

theorem step_tempo_overflow {t : Tempo} {c : Clock} {o : Overflow}
    (hi : m.instruction? = some (.tempo t))
    (hc : m.clock.setTempo t.bpm t.ticksPerBeat = (c, .error (.overflow o))) :
    m.step.2 = .overflow o := by
  rw [step_of_instruction hi, execute, executeTempo]
  simp only [fetched, hc]

theorem step_note_overflow {s : Statement} {o : Overflow} (hi : m.instruction? = some s)
    (hx : m.NoteOf s (.error (.inr o))) : m.step.2 = .overflow o := by
  obtain ⟨l, rfl, he⟩ := hx.fetched.exists_loose
  rw [step_of_instruction hi, execute, executeLoose, he]

/-- After an overflow the same instruction is up again, and with it an overflow. -/
theorem Stepped.again {o : Overflow} (hs : Stepped m m' (.overflow o))
    (h : 0 ≤ m.clock.ticksSinceAnchor) : m'.Jammed ∧ m'.clock.now = m.clock.now := by
  cases hs with
  | broken hi hx =>
    have hi' : m.fetched.instruction? = some _ :=
      instruction?_eq_some.mpr ⟨rfl, (instruction?_eq_some.mp hi).2⟩
    exact ⟨⟨⟨o, step_note_overflow hi' hx.fetched⟩, h⟩, rfl⟩
  | @waitOverflow w c _ hi hw hc =>
    obtain ⟨hstrained, c', o', hc'⟩ := Clock.advanceWait_strained h hc
    have hi' : ({ m.fetched with clock := c } : Machine).instruction? = some (.wait w) :=
      instruction?_eq_some.mpr ⟨rfl, (instruction?_eq_some.mp hi).2⟩
    exact ⟨⟨⟨o', step_wait_overflow hi' hw hc'⟩, hstrained.since⟩, hstrained.now⟩
  | @tempoOverflow t c _ hi hc =>
    obtain ⟨hnow, hsince, c', o', hc'⟩ := Clock.setTempo_strained hc
    have hi' : ({ m.fetched with clock := c } : Machine).instruction? = some (.tempo t) :=
      instruction?_eq_some.mpr ⟨rfl, (instruction?_eq_some.mp hi).2⟩
    exact ⟨⟨⟨o', step_tempo_overflow hi' hc'⟩, hsince⟩, hnow⟩

theorem Jammed.step (h : m.Jammed) : m.step.1.Jammed ∧ m.step.1.clock.now = m.clock.now := by
  obtain ⟨o, ho⟩ := h.overflows
  have hs := m.stepped
  rw [ho] at hs
  exact hs.again h.since

theorem Jammed.emitted (h : m.Jammed) (n : Nat) : m.emitted n = [] := by
  induction n generalizing m with
  | zero => rfl
  | succ n ih =>
    obtain ⟨o, ho⟩ := h.overflows
    rw [emitted_succ_first, ho, ih h.step.1]
    rfl

end

/-! ## Orderly machines -/

/-- A machine whose clock is kept, or that is jammed for good. -/
structure Orderly (m : Machine) : Prop where
  now : m.clock.now.IsTime
  kept : m.clock.Kept ∨ m.Jammed

section
variable {m m' : Machine} {out : Step}

theorem orderly_of_kept (h : m.clock.Kept) : m.Orderly := ⟨h.now_isTime, .inl h⟩

theorem load_orderly (p : Program) : (load p).Orderly := orderly_of_kept (load_kept p)

/-- Every step of an orderly machine leads onward, or jams it. -/
theorem Stepped.orderly (hs : Stepped m m' out) (h : m.clock.Kept) :
    m'.Orderly ∧ (m.clock.Onward m'.clock ∨ m'.Jammed) := by
  by_cases ho : ∃ o, out = .overflow o
  · obtain ⟨o, rfl⟩ := ho
    obtain ⟨hjammed, hnow⟩ := hs.again h.since
    exact ⟨⟨hnow ▸ h.now_isTime, .inr hjammed⟩, .inr hjammed⟩
  · obtain ⟨hkept, honward⟩ := hs.kept h fun o he => absurd ⟨o, he⟩ ho
    exact ⟨orderly_of_kept hkept, .inl honward⟩

theorem Orderly.step (h : m.Orderly) : m.step.1.Orderly := by
  rcases h.kept with hkept | hjammed
  · exact (m.stepped.orderly hkept).1
  · obtain ⟨hstep, hnow⟩ := hjammed.step
    exact ⟨hnow ▸ h.now, .inr hstep⟩

theorem Orderly.steps (h : m.Orderly) (n : Nat) : (m.steps n).Orderly := by
  induction n with
  | zero => exact h
  | succ n ih =>
    rw [steps_succ_last]
    exact ih.step

/-- **Nothing comes too early.** Whatever an orderly machine still emits is due at the time that its
clock shows, or later. -/
theorem Orderly.emitted_onward (h : m.Orderly) (n : Nat) :
    ∀ e ∈ m.emitted n, m.clock.now.le e.time = true ∧ m.clock.ticks ≤ e.tick := by
  induction n generalizing m with
  | zero => simp
  | succ n ih =>
    intro e he
    rcases h.kept with hkept | hjammed
    · rw [emitted_succ_first, List.mem_append] at he
      rcases he with he | he
      · -- The event of the very next step carries what the clock shows.
        have hs := m.stepped
        cases hout : m.step.2 with
        | emit e' =>
          rw [hout] at he hs
          cases List.mem_singleton.mp he
          obtain ⟨htime, htick⟩ := hs.event_clock
          rw [htime, htick]
          exact ⟨hkept.now_isTime.isSpan.le_refl, Int.le_refl _⟩
        | _ =>
          rw [hout] at he
          cases he
      · obtain ⟨horderly, honward | hjammed⟩ := m.stepped.orderly hkept
        · obtain ⟨htime, htick⟩ := ih horderly e he
          exact ⟨le_trans honward.now htime, Int.le_trans honward.ticks htick⟩
        · rw [hjammed.emitted] at he
          cases he
    · rw [hjammed.emitted] at he
      cases he

end

end Machine

end Ostinato
