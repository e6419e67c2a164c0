import Ostinato.Clock

/-!
# What a clock can do

Each operation of the clock has a relation that lists its outcomes: with what guards it comes to which
clock, and what it reports. The equivalences say that the lists are complete, for any clock and any
numbers, so that what holds of an operation is proved by cases on its relation.
-/

namespace Ostinato

open Binary64 (ofInt one limit)

-- The value of these two is too large to be computed with.
attribute [local irreducible] one limit

namespace Clock

/-- The clock with a new tempo, but ticks of the old duration. -/
def retimed (c : Clock) (bpm ticksPerBeat : Int) : Clock :=
  { c with anchor := c.now, ticksSinceAnchor := 0, bpm := bpm, ticksPerBeat := ticksPerBeat }

/-- The clock with some ticks counted, but not converted to time. -/
def counted (c : Clock) (n : Int) : Clock :=
  { c with ticksSinceAnchor := c.ticksSinceAnchor + n, ticks := c.ticks + n }

/-- The clock moved by a span of time that covers some whole ticks. -/
def moved (c : Clock) (span : Binary64) (whole : Int) : Clock :=
  { c with
    anchor := c.now + span, ticksSinceAnchor := 0, ticks := c.ticks + whole, now := c.now + span }

section
variable (c : Clock)

/-- A tempo whose ticks cannot be computed has been assigned when that is found. -/
inductive TempoSet (bpm ticksPerBeat : Int) : Clock → Except ClockFault Unit → Prop where
  | noBeats : bpm ≤ 0 → TempoSet bpm ticksPerBeat c (.error (.tempo .beats))
  | noTicks : 0 < bpm → ticksPerBeat ≤ 0 → TempoSet bpm ticksPerBeat c (.error (.tempo .ticks))
  | overflow {o : Overflow} : 0 < bpm → 0 < ticksPerBeat → tickLength bpm ticksPerBeat = .error o →
      TempoSet bpm ticksPerBeat (c.retimed bpm ticksPerBeat) (.error (.overflow o))
  | set {d : Binary64} : 0 < bpm → 0 < ticksPerBeat → tickLength bpm ticksPerBeat = .ok d →
      TempoSet bpm ticksPerBeat { c.retimed bpm ticksPerBeat with tickDuration := d } (.ok ())

/-- Ticks that cannot be converted have been counted when that is found. -/
inductive Advanced (ticks : Int) : Clock → Except ClockFault Binary64 → Prop where
  | negative : ticks < 0 → Advanced ticks c (.error (.advance (.negativeTicks ticks)))
  | overflow {o : Overflow} : 0 ≤ ticks → ofInt (c.ticksSinceAnchor + ticks) = .error o →
      Advanced ticks (c.counted ticks) (.error (.overflow o))
  | due {n : Binary64} : 0 ≤ ticks → ofInt (c.ticksSinceAnchor + ticks) = .ok n →
      Advanced ticks { c.counted ticks with now := c.anchor + n * c.tickDuration }
        (.ok (c.anchor + n * c.tickDuration))

inductive Spanned (span : Binary64) : Clock → Except ClockFault Binary64 → Prop where
  | negative : span.lt .zero = true → Spanned span c (.error (.advance (.negativeTime span)))
  | overflow {o : Overflow} : span.lt .zero = false → (span / c.tickDuration).truncate = .error o →
      Spanned span c (.error (.overflow o))
  | due {whole : Int} : span.lt .zero = false → (span / c.tickDuration).truncate = .ok whole →
      Spanned span (c.moved span whole) (.ok (c.now + span))

/-- Musical time is counted in ticks, clock time is a span. -/
inductive Waited (amount : Int) : TimeUnit → Clock → Except ClockFault Binary64 → Prop where
  | ticks {c' : Clock} {r : Except ClockFault Binary64} :
      c.Advanced amount c' r → Waited amount .ticks c' r
  | beats {c' : Clock} {r : Except ClockFault Binary64} :
      c.Advanced (amount * c.ticksPerBeat) c' r → Waited amount .beats c' r
  | unknown {name : String} :
      Waited amount (.unknown name) c (.error (.advance (.unknownUnit name)))
  | overflow {unit : TimeUnit} {perUnit : Binary64} {o : Overflow} :
      unit.clockSeconds? = some perUnit → ofInt amount = .error o →
      Waited amount unit c (.error (.overflow o))
  | span {unit : TimeUnit} {perUnit n : Binary64} {c' : Clock} {r : Except ClockFault Binary64} :
      unit.clockSeconds? = some perUnit → ofInt amount = .ok n → c.Spanned (n * perUnit) c' r →
      Waited amount unit c' r

end

section
variable {c c' : Clock} {r : Except ClockFault Binary64}

theorem setTempo_iff {bpm ticksPerBeat : Int} {r : Except ClockFault Unit} :
    c.setTempo bpm ticksPerBeat = (c', r) ↔ c.TempoSet bpm ticksPerBeat c' r := by
  constructor
  · intro h
    unfold setTempo at h
    split at h
    · rename_i hb
      cases h
      exact .noBeats hb
    · rename_i hb
      split at h
      · rename_i ht
        cases h
        exact .noTicks (by omega) ht
      · rename_i ht
        dsimp only at h
        split at h
        · rename_i hd
          cases h
          exact .overflow (by omega) (by omega) hd
        · rename_i hd
          cases h
          exact .set (by omega) (by omega) hd
  · intro h
    cases h with
    | noBeats hb => rw [setTempo, if_pos hb]
    | noTicks hb ht => rw [setTempo, if_neg (by omega), if_pos ht]
    | overflow hb ht hd =>
      rw [setTempo, if_neg (by omega), if_neg (by omega), hd]
      rfl
    | set hb ht hd =>
      rw [setTempo, if_neg (by omega), if_neg (by omega), hd]
      rfl

theorem advance_iff {ticks : Int} : c.advance ticks = (c', r) ↔ c.Advanced ticks c' r := by
  constructor
  · intro h
    unfold advance at h
    split at h
    · rename_i ht
      cases h
      exact .negative ht
    · rename_i ht
      dsimp only at h
      split at h
      · rename_i hn
        cases h
        exact .overflow (by omega) hn
      · rename_i hn
        cases h
        exact .due (by omega) hn
  · intro h
    cases h with
    | negative ht => rw [advance, if_pos ht]
    | overflow ht hn =>
      rw [advance, if_neg (by omega)]
      dsimp only
      rw [hn]
      rfl
    | due ht hn =>
      rw [advance, if_neg (by omega)]
      dsimp only
      rw [hn]
      rfl

theorem advanceSeconds_iff {span : Binary64} :
    c.advanceSeconds span = (c', r) ↔ c.Spanned span c' r := by
  constructor
  · intro h
    unfold advanceSeconds at h
    split at h
    · rename_i hs
      cases h
      exact .negative hs
    · rename_i hs
      split at h
      · rename_i hw
        cases h
        exact .overflow (by simpa using hs) hw
      · rename_i hw
        cases h
        exact .due (by simpa using hs) hw
  · intro h
    cases h with
    | negative hs => rw [advanceSeconds, if_pos hs]
    | overflow hs hw => rw [advanceSeconds, hs, if_neg Bool.false_ne_true, hw]
    | due hs hw =>
      rw [advanceSeconds, hs, if_neg Bool.false_ne_true, hw]
      rfl

theorem advanceWait_error {amount : Int} {unit : TimeUnit} {perUnit : Binary64} {o : Overflow}
    (hu : unit.clockSeconds? = some perUnit) (hn : ofInt amount = .error o) :
    c.advanceWait amount unit = (c, .error (.overflow o)) := by
  cases unit with
  | ticks | beats | unknown => cases hu
  | _ => simp only [advanceWait, hu, hn]

theorem advanceWait_ok {amount : Int} {unit : TimeUnit} {perUnit n : Binary64}
    (hu : unit.clockSeconds? = some perUnit) (hn : ofInt amount = .ok n) :
    c.advanceWait amount unit = c.advanceSeconds (n * perUnit) := by
  cases unit with
  | ticks | beats | unknown => cases hu
  | _ => simp only [advanceWait, hu, hn]

theorem advanceWait_iff {amount : Int} {unit : TimeUnit} :
    c.advanceWait amount unit = (c', r) ↔ c.Waited amount unit c' r := by
  constructor
  · intro h
    cases hu : unit.clockSeconds? with
    | none =>
      cases unit with
      | ticks => exact .ticks (advance_iff.mp h)
      | beats => exact .beats (advance_iff.mp h)
      | unknown name =>
        cases h
        exact .unknown
      | _ => cases hu
    | some perUnit =>
      cases hn : ofInt amount with
      | error o =>
        rw [advanceWait_error hu hn] at h
        cases h
        exact .overflow hu hn
      | ok n =>
        rw [advanceWait_ok hu hn] at h
        exact .span hu hn (advanceSeconds_iff.mp h)
  · intro h
    cases h with
    | ticks h => exact advance_iff.mpr h
    | beats h => exact advance_iff.mpr h
    | unknown => rfl
    | overflow hu hn => exact advanceWait_error hu hn
    | span hu hn h => exact (advanceWait_ok hu hn).trans (advanceSeconds_iff.mpr h)

/-! ## Requests that fail -/

theorem setTempo_fault {bpm ticksPerBeat : Int} {e : ClockFault}
    (h : c.setTempo bpm ticksPerBeat = (c', .error e)) :
    (∃ o, e = .overflow o) ∨ (c' = c ∧ ∃ f, e = .tempo f) := by
  cases setTempo_iff.mp h with
  | noBeats | noTicks => exact .inr ⟨rfl, _, rfl⟩
  | overflow => exact .inl ⟨_, rfl⟩

theorem Advanced.fault {ticks : Int} {e : ClockFault} (h : c.Advanced ticks c' (.error e)) :
    (∃ o, e = .overflow o) ∨ (c' = c ∧ ∃ f, e = .advance f) := by
  cases h with
  | negative => exact .inr ⟨rfl, _, rfl⟩
  | overflow => exact .inl ⟨_, rfl⟩

/-- An advance by a span of time that fails changes nothing, whatever the reason. -/
theorem advanceSeconds_refused {span : Binary64} {e : ClockFault}
    (h : c.advanceSeconds span = (c', .error e)) : c' = c := by
  cases advanceSeconds_iff.mp h with
  | negative | overflow => rfl

/-- Nor does a wait in clock time. -/
theorem advanceWait_clockTime_refused {amount : Int} {unit : TimeUnit} {perUnit : Binary64}
    {e : ClockFault} (hu : unit.clockSeconds? = some perUnit)
    (h : c.advanceWait amount unit = (c', .error e)) : c' = c := by
  cases advanceWait_iff.mp h with
  | ticks | beats => cases hu
  | unknown | overflow => rfl
  | span _ _ h => exact advanceSeconds_refused (advanceSeconds_iff.mpr h)

theorem advanceWait_fault {amount : Int} {unit : TimeUnit} {e : ClockFault}
    (h : c.advanceWait amount unit = (c', .error e)) :
    (∃ o, e = .overflow o) ∨ (c' = c ∧ ∃ f, e = .advance f) := by
  cases advanceWait_iff.mp h with
  | ticks h | beats h => exact h.fault
  | unknown => exact .inr ⟨rfl, _, rfl⟩
  | overflow => exact .inl ⟨_, rfl⟩
  | span _ _ h =>
    cases h with
    | negative => exact .inr ⟨rfl, _, rfl⟩
    | overflow => exact .inl ⟨_, rfl⟩

end

end Clock

end Ostinato
