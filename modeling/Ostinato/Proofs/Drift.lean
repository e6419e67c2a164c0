import Ostinato.Proofs.Onward

/-!
# Waits in ticks do not drift

A clock is asked for four things: a tempo, an advance by ticks or by a span of time, and a wait. A
request that fails changes nothing (`ask_unchanged`), unless it `Strains` the clock with a number that is
found to be too large when fields have been assigned; and one that is granted keeps the clock
(`Kept.ask`). So every clock that was never asked for too large a number shows what its ticks since the
anchor last. Its time is computed anew from these ticks at each advance, and so it makes no difference
how they are counted: some waits in ticks and beats, one after the other, are one advance by the ticks
they have together.
-/

namespace Ostinato

open Binary64

-- The value of these two is too large to be computed with.
attribute [local irreducible] one limit

theorem Binary64.IsTime.add_negZero {x : Binary64} (hx : x.IsTime) : x + fin true 0 = x := by
  match x, hx with
  | inf false, _ => rfl
  | fin false a, ⟨hlt, hmag⟩ =>
    show ofDifference a 0 = fin false a
    unfold ofDifference
    split
    · rename_i ha
      rw [ha]
    · rw [if_pos (by omega), Nat.sub_zero, roundQuotient_of_lt (by rwa [hmag]), hmag]

/-! ## Requests -/

def Binary64.TooLarge (n : Int) : Prop := ofInt n = .error .integerTooLarge

instance Binary64.TooLarge.decidable (n : Int) : Decidable (TooLarge n) :=
  inferInstanceAs (Decidable (ofInt n = .error .integerTooLarge))

theorem Binary64.tooLarge_of_error {n : Int} {o : Overflow} (h : ofInt n = .error o) : TooLarge n := by
  rw [TooLarge, h, ofInt_error h]

/-- Whether the clock refused because a number was too large. -/
def ClockFault.isOverflow : ClockFault → Bool
  | overflow o => o.isTooLarge
  | _ => false

namespace Clock

/-- What a clock can be asked for. -/
inductive Request where
  | tempo (bpm ticksPerBeat : Int)
  | ticks (n : Int)
  | seconds (span : Binary64)
  | wait (amount : Int) (unit : TimeUnit)
  deriving Repr, DecidableEq

/-- Why a request failed, if it did. -/
def fault? {α : Type} : Except ClockFault α → Option ClockFault
  | .ok _ => none
  | .error f => some f

theorem eq_of_fault?_none {α : Type} {r : Clock × Except ClockFault α} (h : fault? r.2 = none) :
    ∃ a, r = (r.1, .ok a) := by
  obtain ⟨c, f | a⟩ := r
  · cases h
  · exact ⟨a, rfl⟩

theorem eq_of_fault?_some {α : Type} {r : Clock × Except ClockFault α} {f : ClockFault}
    (h : fault? r.2 = some f) : r = (r.1, .error f) := by
  obtain ⟨c, f' | a⟩ := r
  · cases h
    rfl
  · cases h

/-- The clock after a request, and why it failed if it did. -/
def ask (c : Clock) : Request → Clock × Option ClockFault
  | .tempo bpm ticksPerBeat => (c.setTempo bpm ticksPerBeat).map id fault?
  | .ticks n => (c.advance n).map id fault?
  | .seconds span => (c.advanceSeconds span).map id fault?
  | .wait amount unit => (c.advanceWait amount unit).map id fault?

/-- A clock that was started with some tempo and has been asked for anything but too large a
number. -/
inductive Reachable : Clock → Prop where
  | start {bpm ticksPerBeat : Int} {c : Clock} : Clock.start bpm ticksPerBeat = .ok c → Reachable c
  | ask {c : Clock} (h : Reachable c) (q : Request) :
      (∀ f, (c.ask q).2 = some f → f.isOverflow = false) → Reachable (c.ask q).1

/-! ## Requests that fail -/

/-- An advance by ticks that are more than the clock can convert. -/
def Overruns (c : Clock) (n : Int) : Prop := 0 ≤ n ∧ TooLarge (c.ticksSinceAnchor + n)

instance Overruns.decidable (c : Clock) (n : Int) : Decidable (c.Overruns n) :=
  inferInstanceAs (Decidable (_ ∧ _))

/-- A request that meets a number too large when fields have been assigned. -/
def Strains (c : Clock) : Request → Prop
  | .tempo bpm ticksPerBeat => 0 < bpm ∧ 0 < ticksPerBeat ∧ TooLarge (bpm * ticksPerBeat)
  | .ticks n | .wait n .ticks => c.Overruns n
  | .wait n .beats => c.Overruns (n * c.ticksPerBeat)
  | _ => False

instance Strains.decidable (c : Clock) : (q : Request) → Decidable (c.Strains q)
  | .tempo .. => inferInstanceAs (Decidable (_ ∧ _ ∧ _))
  | .ticks n => inferInstanceAs (Decidable (c.Overruns n))
  | .wait n .ticks => inferInstanceAs (Decidable (c.Overruns n))
  | .wait n .beats => inferInstanceAs (Decidable (c.Overruns (n * c.ticksPerBeat)))
  | .seconds _ => .isFalse id
  | .wait _ .minutes | .wait _ .seconds | .wait _ .milliseconds | .wait _ .microseconds
  | .wait _ .nanoseconds | .wait _ (.unknown _) => .isFalse id

/-- What a request that strains the clock leaves behind. -/
def halfway (c : Clock) : Request → Clock
  | .tempo bpm ticksPerBeat => c.retimed bpm ticksPerBeat
  | .ticks n | .wait n .ticks => c.counted n
  | .wait n .beats => c.counted (n * c.ticksPerBeat)
  | _ => c

section
variable {c c' : Clock} {f : ClockFault} {q : Request}

theorem setTempo_overflows {bpm ticksPerBeat : Int} (h : c.Strains (.tempo bpm ticksPerBeat)) :
    c.setTempo bpm ticksPerBeat =
      (c.retimed bpm ticksPerBeat, .error (.overflow .integerTooLarge)) := by
  obtain ⟨hb, ht, hlarge⟩ := h
  refine setTempo_iff.mpr (.overflow hb ht ?_)
  rw [tickLength, hlarge]
  rfl

theorem setTempo_unchanged {bpm ticksPerBeat : Int} (h : ¬c.Strains (.tempo bpm ticksPerBeat))
    (he : c.setTempo bpm ticksPerBeat = (c', .error f)) : c' = c := by
  cases setTempo_iff.mp he with
  | noBeats | noTicks => rfl
  | overflow hb ht ho =>
    exact absurd ⟨hb, ht, tooLarge_of_error (ofInt_of_tickLength_error ho)⟩ h

theorem advance_overflows {n : Int} (h : c.Overruns n) :
    c.advance n = (c.counted n, .error (.overflow .integerTooLarge)) :=
  advance_iff.mpr (.overflow h.1 h.2)

theorem advance_unchanged {n : Int} (h : ¬c.Overruns n) (he : c.advance n = (c', .error f)) :
    c' = c := by
  cases advance_iff.mp he with
  | negative => rfl
  | overflow hn ho => exact absurd ⟨hn, tooLarge_of_error ho⟩ h

theorem ask_overflows (h : c.Strains q) :
    c.ask q = (c.halfway q, some (.overflow .integerTooLarge)) := by
  cases q with
  | tempo bpm ticksPerBeat => rw [ask, setTempo_overflows h]; rfl
  | ticks n => rw [ask, advance_overflows h]; rfl
  | seconds span => exact h.elim
  | wait n unit =>
    cases unit with
    | ticks => rw [ask, advanceWait, advance_overflows h]; rfl
    | beats => rw [ask, advanceWait, advance_overflows h]; rfl
    | _ => exact h.elim

theorem ask_unchanged (h : ¬c.Strains q) (hf : (c.ask q).2 = some f) : (c.ask q).1 = c := by
  cases q with
  | tempo bpm ticksPerBeat => exact setTempo_unchanged h (eq_of_fault?_some hf)
  | ticks n => exact advance_unchanged h (eq_of_fault?_some hf)
  | seconds span => exact advanceSeconds_refused (eq_of_fault?_some hf)
  | wait n unit =>
    cases hu : unit.clockSeconds? with
    | some perUnit => exact advanceWait_clockTime_refused hu (eq_of_fault?_some hf)
    | none =>
      cases unit with
      | ticks => exact advance_unchanged h (eq_of_fault?_some hf)
      | beats => exact advance_unchanged h (eq_of_fault?_some hf)
      | unknown name => rfl
      | _ => cases hu

theorem ask_fault (h : (c.ask q).2 = some f) (hf : f.isOverflow = false) : (c.ask q).1 = c := by
  by_cases hq : c.Strains q
  · rw [ask_overflows hq] at h
    cases h
    cases hf
  · exact ask_unchanged hq h

end

/-! ## Requests that are granted -/

section
variable {c c' : Clock} {due : Binary64}

/-- No ticks below zero are granted. -/
theorem Kept.advanceTicks (h : c.Kept) {ticks : Int} (he : c.advance ticks = (c', .ok due)) :
    c'.Kept := by
  have ht : 0 ≤ ticks := by
    cases advance_iff.mp he with
    | due ht => exact ht
  exact (h.advance ht he).1

/-- A span of time that is granted is not below zero, but it may be the negative zero, which changes no
time. -/
theorem Kept.advanceSpan (h : c.Kept) {seconds : Binary64}
    (he : c.advanceSeconds seconds = (c', .ok due)) : c'.Kept := by
  obtain ⟨d, -, hd⟩ := h.ticking.tick
  cases advanceSeconds_iff.mp he with
  | due hlt hwhole =>
    refine Ticking.kept ⟨h.ticking.beat, h.ticking.tick⟩ ?_ rfl rfl
    show (c.now + seconds).IsTime
    match seconds, hlt, hwhole with
    | fin false a, _, _ => exact h.now_isTime.isSpan.add_isTime trivial
    | inf false, _, _ => exact h.now_isTime.isSpan.add_isTime trivial
    | nan s, _, hwhole =>
      rw [hd] at hwhole
      cases hwhole
    | inf true, hlt, _ => cases hlt
    | fin true a, hlt, _ =>
      have ha : a = 0 := by simpa [lt, zero] using hlt
      rw [ha, h.now_isTime.add_negZero]
      exact h.now_isTime

/-- A wait that is granted keeps the clock, whatever its amount. -/
theorem Kept.advanceAmount (h : c.Kept) {amount : Int} {unit : TimeUnit}
    (he : c.advanceWait amount unit = (c', .ok due)) : c'.Kept := by
  cases advanceWait_iff.mp he with
  | ticks he | beats he => exact h.advanceTicks (advance_iff.mpr he)
  | span _ _ he => exact h.advanceSpan (advanceSeconds_iff.mpr he)

theorem Kept.ask (h : c.Kept) {q : Request} (hq : (c.ask q).2 = none) : (c.ask q).1.Kept := by
  cases q with
  | tempo bpm ticksPerBeat =>
    obtain ⟨_, ha⟩ := eq_of_fault?_none hq
    exact (h.setTempo ha).1
  | ticks n =>
    obtain ⟨due, ha⟩ := eq_of_fault?_none hq
    exact h.advanceTicks ha
  | seconds span =>
    obtain ⟨due, ha⟩ := eq_of_fault?_none hq
    exact h.advanceSpan ha
  | wait amount unit =>
    obtain ⟨due, ha⟩ := eq_of_fault?_none hq
    exact h.advanceAmount ha

/-! ## Clocks that are reached -/

theorem start_kept {bpm ticksPerBeat : Int} (h : start bpm ticksPerBeat = .ok c) : c.Kept := by
  unfold start at h
  split at h
  · rename_i c' hc
    cases h
    obtain ⟨hticking, hanchor, hsince, -, hnow⟩ := setTempo_ok hc
    exact hticking.kept (hnow ▸ zero_isTime) (hanchor.trans hnow.symm) hsince
  · cases h

/-- The run lemma. -/
theorem Reachable.kept (h : c.Reachable) : c.Kept := by
  induction h with
  | start hc => exact start_kept hc
  | @ask c h q hq ih =>
    cases hf : (c.ask q).2 with
    | none => exact ih.ask hf
    | some f =>
      rw [ask_fault hf (hq f hf)]
      exact ih

end

/-! ## Advances by ticks -/

section
variable {c : Clock} {n : Binary64}

theorem advance_eq {ticks : Int} (ht : 0 ≤ ticks) (hn : ofInt (c.ticksSinceAnchor + ticks) = .ok n) :
    c.advance ticks = ({ c with
      ticksSinceAnchor := c.ticksSinceAnchor + ticks, ticks := c.ticks + ticks,
      now := c.anchor + n * c.tickDuration }, .ok (c.anchor + n * c.tickDuration)) :=
  advance_iff.mpr (.due ht hn)

theorem Kept.advance_zero (h : c.Kept) : c.advance 0 = (c, .ok c.now) := by
  obtain ⟨n, hn, hnow⟩ := h.shown
  rw [advance_eq (Int.le_refl 0) (by rwa [Int.add_zero]), ← hnow, Int.add_zero, Int.add_zero]

theorem Kept.converts (h : c.Kept) {ticks more : Int} (ht : 0 ≤ ticks) (hm : 0 ≤ more)
    (hn : ofInt (c.ticksSinceAnchor + (ticks + more)) = .ok n) :
    ∃ k, ofInt (c.ticksSinceAnchor + ticks) = .ok k := by
  have hsince := h.since
  cases hk : ofInt (c.ticksSinceAnchor + ticks) with
  | ok k => exact ⟨k, rfl⟩
  | error o =>
    obtain ⟨o', ho'⟩ := ofInt_error_mono (n := c.ticksSinceAnchor + (ticks + more)) (by omega)
      (by omega) hk
    rw [hn] at ho'
    cases ho'

theorem advance_advance {ticks more : Int} (ht : 0 ≤ ticks) (hm : 0 ≤ more) {k : Binary64}
    (hk : ofInt (c.ticksSinceAnchor + ticks) = .ok k)
    (hn : ofInt (c.ticksSinceAnchor + (ticks + more)) = .ok n) :
    (c.advance ticks).1.advance more = c.advance (ticks + more) := by
  have hsum : ofInt ((c.advance ticks).1.ticksSinceAnchor + more) = .ok n := by
    rw [advance_eq ht hk]
    show ofInt (c.ticksSinceAnchor + ticks + more) = .ok n
    rwa [Int.add_assoc]
  rw [advance_eq hm hsum, advance_eq (by omega) hn, advance_eq ht hk]
  simp only [Int.add_assoc]

end

end Clock

/-! ## Waits one after the other -/

def Wait.IsMusical (w : Wait) : Prop := 0 ≤ w.amount ∧ (w.unit = .ticks ∨ w.unit = .beats)

namespace Clock

/-- Waits one after the other: the clock afterwards and when the last wait is due, `due` being that of
the one before. -/
def waitsFrom (c : Clock) (due : Binary64) : List Wait → Outcome
  | [] => (c, .ok due)
  | w :: ws =>
    match c.advanceWait w.amount w.unit with
    | (c, .ok due) => waitsFrom c due ws
    | failed => failed

/-- Waits one after the other. If there are none, now is when they are due. -/
def waits (c : Clock) (ws : List Wait) : Outcome := c.waitsFrom c.now ws

def ticksOf (c : Clock) (w : Wait) : Int :=
  if w.unit = .beats then w.amount * c.ticksPerBeat else w.amount

def total (c : Clock) (ws : List Wait) : Int := (ws.map c.ticksOf).sum

section
variable {c : Clock}

theorem Kept.ticksOf_nonneg (h : c.Kept) {w : Wait} (hw : w.IsMusical) : 0 ≤ c.ticksOf w := by
  unfold ticksOf
  split
  · exact Int.mul_nonneg hw.1 (Int.le_of_lt h.ticking.beat)
  · exact hw.1

theorem Kept.total_nonneg (h : c.Kept) {ws : List Wait} (hws : ∀ w ∈ ws, w.IsMusical) :
    0 ≤ c.total ws := by
  apply List.sum_nonneg
  intro n hn
  obtain ⟨w, hw, rfl⟩ := List.mem_map.mp hn
  exact h.ticksOf_nonneg (hws w hw)

theorem advanceWait_ticksOf {w : Wait} (hw : w.IsMusical) :
    c.advanceWait w.amount w.unit = c.advance (c.ticksOf w) := by
  unfold ticksOf
  rcases hw.2 with hu | hu
  · rw [hu, if_neg (by decide)]
    rfl
  · rw [hu, if_pos rfl]
    rfl

/-- Some waits in musical time are one advance. The clock of each wait is kept, so that the time after
it is the one from which the next wait is counted. -/
theorem Kept.waits_eq (h : c.Kept) {ws : List Wait} (hws : ∀ w ∈ ws, w.IsMusical) {n : Binary64}
    (hn : ofInt (c.ticksSinceAnchor + c.total ws) = .ok n) :
    c.waits ws = c.advance (c.total ws) := by
  induction ws generalizing c with
  | nil => exact h.advance_zero.symm
  | cons w rest ih =>
    have hrest : ∀ w ∈ rest, w.IsMusical := fun w' hw' => hws w' (List.mem_cons_of_mem w hw')
    have hw := hws w List.mem_cons_self
    have hticks := h.ticksOf_nonneg hw
    have hmore := h.total_nonneg hrest
    have htotal : c.total (w :: rest) = c.ticksOf w + c.total rest := List.sum_cons
    rw [htotal] at hn ⊢
    obtain ⟨k, hk⟩ := h.converts hticks hmore hn
    have hstep := advance_eq hticks hk
    have hafter : (c.advance (c.ticksOf w)).1.Kept := by
      have hkept := h.advance hticks hstep
      rw [hstep]
      exact hkept.1
    have hsame : (c.advance (c.ticksOf w)).1.total rest = c.total rest := by
      rw [hstep]
      rfl
    have hconverts : ofInt ((c.advance (c.ticksOf w)).1.ticksSinceAnchor +
        (c.advance (c.ticksOf w)).1.total rest) = .ok n := by
      rw [hsame, hstep]
      show ofInt (c.ticksSinceAnchor + c.ticksOf w + c.total rest) = .ok n
      rwa [Int.add_assoc]
    calc c.waits (w :: rest)
        = (c.advance (c.ticksOf w)).1.waits rest := by
          rw [waits, waitsFrom, advanceWait_ticksOf hw, hstep]
          rfl
      _ = (c.advance (c.ticksOf w)).1.advance (c.total rest) := by
          rw [ih hafter hrest hconverts, hsame]
      _ = c.advance (c.ticksOf w + c.total rest) := advance_advance hticks hmore hk hn

/-- **Waits in ticks do not drift.** On a clock that was never asked for too large a number, waits in
ticks and beats, one after the other, come to the same clock and the same time as one advance by the
ticks they have together, as long as these can be converted. So it makes no difference how waits are
split, put together or ordered, and an advance by no tick changes nothing. -/
theorem ticks_do_not_drift (hc : c.Reachable) :
    c.advance 0 = (c, .ok c.now) ∧
      ∀ ws : List Wait, (∀ w ∈ ws, w.IsMusical) →
        (∃ n, ofInt (c.ticksSinceAnchor + c.total ws) = .ok n) →
        c.waits ws = c.advance (c.total ws) ∧
          (∃ c', c.advance (c.total ws) = (c', .ok c'.now)) ∧
          (∀ ws', (∀ w ∈ ws', w.IsMusical) → c.total ws' = c.total ws → c.waits ws' = c.waits ws) ∧
          ∀ ws', ws'.Perm ws → c.waits ws' = c.waits ws := by
  have hkept := hc.kept
  refine ⟨hkept.advance_zero, fun ws hws ⟨n, hn⟩ => ?_⟩
  have hwaits := hkept.waits_eq hws hn
  have hsame : ∀ ws', (∀ w ∈ ws', w.IsMusical) → c.total ws' = c.total ws →
      c.waits ws' = c.waits ws := by
    intro ws' hws' htotal
    rw [hwaits, hkept.waits_eq hws' (by rwa [htotal]), htotal]
  refine ⟨hwaits, ⟨_, advance_eq (hkept.total_nonneg hws) hn⟩, hsame, fun ws' hperm => ?_⟩
  exact hsame ws' (fun w hw => hws w (hperm.mem_iff.mp hw)) (hperm.map c.ticksOf).sum_eq

end

/-- A clock in the midst of a run: it has a tempo of its own, has waited in clock time and in ticks, and
has refused a wait. -/
def midway : Clock :=
  ((((initial.ask (.tempo 90 480)).1.ask (.wait 7 .milliseconds)).1.ask (.wait (-1) .beats)).1.ask
    (.ticks 5)).1

theorem ticks_do_not_drift_midway :
    midway.Reachable ∧ midway.advance 0 = (midway, .ok midway.now) ∧
      midway.waits [⟨3, .ticks, {}⟩, ⟨2, .beats, {}⟩, ⟨0, .ticks, {}⟩] = midway.advance 963 ∧
      midway.waits [⟨2, .beats, {}⟩, ⟨1, .ticks, {}⟩, ⟨2, .ticks, {}⟩] = midway.advance 963 := by
  have hgoes : ∀ {c : Clock} {q : Request}, c.Reachable →
      (c.ask q).2.all (!·.isOverflow) = true → (c.ask q).1.Reachable := by
    intro c q hc hq
    refine hc.ask q fun f hf => ?_
    rw [hf] at hq
    simpa using hq
  have hstart : start defaultBpm defaultTicksPerBeat = .ok initial := by decide +kernel
  have hreached : midway.Reachable :=
    hgoes (hgoes (hgoes (hgoes (.start hstart) (by decide +kernel)) (by decide +kernel))
      (by decide +kernel)) (by decide +kernel)
  have htotal : midway.total [⟨3, .ticks, {}⟩, ⟨2, .beats, {}⟩, ⟨0, .ticks, {}⟩] = 963 := by
    decide +kernel
  have htotal' : midway.total [⟨2, .beats, {}⟩, ⟨1, .ticks, {}⟩, ⟨2, .ticks, {}⟩] = 963 := by
    decide +kernel
  have hconverts : ∃ n, ofInt (midway.ticksSinceAnchor + 963) = .ok n :=
    ⟨fin false (968 * one), by decide +kernel⟩
  -- From here on nothing is to be computed.
  generalize midway = c at hreached htotal htotal' hconverts ⊢
  obtain ⟨hzero, hwaits⟩ := ticks_do_not_drift hreached
  obtain ⟨hall, -, hsame, -⟩ := hwaits [⟨3, .ticks, {}⟩, ⟨2, .beats, {}⟩, ⟨0, .ticks, {}⟩]
    (by unfold Wait.IsMusical; decide) (by rwa [htotal])
  have hagain := hsame [⟨2, .beats, {}⟩, ⟨1, .ticks, {}⟩, ⟨2, .ticks, {}⟩]
    (by unfold Wait.IsMusical; decide) (htotal'.trans htotal.symm)
  rw [htotal] at hall
  exact ⟨hreached, hzero, hall, hagain.trans hall⟩

end Clock

end Ostinato
