import Ostinato.Proofs.Drift

/-!
# Requests that strain a clock

A request that strains a clock fails and leaves it `halfway`. The time and the duration of a tick are the
last fields to be assigned, so they stay (`ask_shows`); but the tempo, the ticks and the anchor do not
fit them any more. As long as no request strains the clock, those that fail leave no trace: the clock is
the one that the others alone come to (`asks_granted`).
-/

namespace Ostinato

open Binary64

-- The value of these two is too large to be computed with.
attribute [local irreducible] one limit

namespace Clock

/-! ## What failing leaves -/

section
variable {c c' : Clock} {f : ClockFault} {q : Request}

theorem halfway_shows (c : Clock) (q : Request) :
    (c.halfway q).now = c.now ∧ (c.halfway q).tickDuration = c.tickDuration := by
  unfold halfway
  split <;> exact ⟨rfl, rfl⟩

/-- Whether or not a request that fails strains the clock, it moves neither the time nor the duration
of a tick. -/
theorem ask_shows (hf : (c.ask q).2 = some f) :
    (c.ask q).1.now = c.now ∧ (c.ask q).1.tickDuration = c.tickDuration := by
  by_cases h : c.Strains q
  · rw [ask_overflows h]
    exact halfway_shows c q
  · rw [ask_unchanged h hf]
    exact ⟨rfl, rfl⟩

/-- Whole seconds are converted before any field is assigned. -/
theorem advanceWhole_unchanged {seconds : Int} {f : WholeFault}
    (he : c.advanceWhole seconds = (c', .error f)) : c' = c := by
  unfold advanceWhole at he
  split at he
  · cases he
    rfl
  · split at he
    · cases he
      rfl
    · split at he
      · cases he
        rfl
      · cases he

end

/-! ## Requests one after the other -/

def asks (c : Clock) (qs : List Request) : Clock := qs.foldl (fun c q => (c.ask q).1) c

def granted (c : Clock) : List Request → List Request
  | [] => []
  | q :: qs =>
    if (c.ask q).2 = none then q :: (c.ask q).1.granted qs else (c.ask q).1.granted qs

/-- None of some requests, one after the other, strains the clock. -/
def Easy (c : Clock) : List Request → Prop
  | [] => True
  | q :: qs => ¬c.Strains q ∧ (c.ask q).1.Easy qs

instance Easy.decidable (c : Clock) : (qs : List Request) → Decidable (c.Easy qs)
  | [] => .isTrue trivial
  | q :: qs =>
    have := Easy.decidable (c.ask q).1 qs
    inferInstanceAs (Decidable (_ ∧ _))

/-- The run lemma: by induction on the requests, the step being that one which fails changes nothing. -/
theorem asks_granted {c : Clock} {qs : List Request} (h : c.Easy qs) :
    c.asks (c.granted qs) = c.asks qs := by
  induction qs generalizing c with
  | nil => rfl
  | cons q qs ih =>
    have hrest : (c.ask q).1.asks ((c.ask q).1.granted qs) = c.asks (q :: qs) := ih h.2
    cases hf : (c.ask q).2 with
    | none =>
      rw [granted, if_pos hf]
      exact hrest
    | some f =>
      have hsame := ask_unchanged h.1 hf
      rw [granted, if_neg (by rw [hf]; exact Option.some_ne_none f)]
      rw [← hrest, hsame]

/-! ## Clocks that were never strained -/

/-- Ticks last what the tempo says. -/
def Paced (c : Clock) : Prop := tickLength c.bpm c.ticksPerBeat = .ok c.tickDuration

section
variable {c c' : Clock} {q : Request}

theorem setTempo_paced {bpm ticksPerBeat : Int} (he : c.setTempo bpm ticksPerBeat = (c', .ok ())) :
    c'.Paced := by
  cases setTempo_iff.mp he with
  | set _ _ hd => exact hd

theorem Paced.advanced (h : c.Paced) {n : Int} {r : Except ClockFault Binary64}
    (ha : c.Advanced n c' r) : c'.Paced := by
  cases ha <;> exact h

theorem Paced.spanned (h : c.Paced) {span : Binary64} {r : Except ClockFault Binary64}
    (ha : c.Spanned span c' r) : c'.Paced := by
  cases ha <;> exact h

theorem Paced.waited (h : c.Paced) {n : Int} {unit : TimeUnit} {r : Except ClockFault Binary64}
    (ha : c.Waited n unit c' r) : c'.Paced := by
  cases ha with
  | ticks ha | beats ha => exact h.advanced ha
  | unknown | overflow => exact h
  | span _ _ ha => exact h.spanned ha

theorem Reachable.paced (h : c.Reachable) : c.Paced := by
  induction h with
  | start hc =>
    unfold Clock.start at hc
    split at hc
    · rename_i c' hset
      cases hc
      exact setTempo_paced hset
    · cases hc
  | @ask c _ q hq ih =>
    cases hf : (c.ask q).2 with
    | some f => rwa [ask_fault hf (hq f hf)]
    | none =>
      cases q with
      | tempo bpm ticksPerBeat =>
        obtain ⟨_, ha⟩ := eq_of_fault?_none hf
        exact setTempo_paced ha
      | ticks n => exact ih.advanced (advance_iff.mp rfl)
      | seconds span => exact ih.spanned (advanceSeconds_iff.mp rfl)
      | wait n unit => exact ih.waited (advanceWait_iff.mp rfl)

theorem Reachable.counted_ne (h : c.Reachable) {n : Int} (hn : c.Overruns n) : c.counted n ≠ c := by
  intro hsame
  have hticks : c.ticks + n = c.ticks := congrArg ticks hsame
  obtain ⟨-, hlarge⟩ := hn
  obtain ⟨x, hx, -⟩ := h.kept.shown
  rw [show c.ticksSinceAnchor + n = c.ticksSinceAnchor by omega, TooLarge, hx] at hlarge
  cases hlarge

/-- A clock that was never strained is changed by a request that strains it: its ticks could be
converted so far, and the duration of its ticks could be computed. -/
theorem Reachable.halfway_ne (h : c.Reachable) (hq : c.Strains q) : c.halfway q ≠ c := by
  cases q with
  | tempo bpm ticksPerBeat =>
    intro hsame
    have hbpm : bpm = c.bpm := congrArg Clock.bpm hsame
    have hbeat : ticksPerBeat = c.ticksPerBeat := congrArg Clock.ticksPerBeat hsame
    obtain ⟨-, -, hlarge⟩ := hq
    have hpaced := h.paced
    rw [hbpm, hbeat, TooLarge] at hlarge
    rw [Paced, tickLength, hlarge] at hpaced
    cases hpaced
  | ticks n => exact h.counted_ne hq
  | seconds span => exact hq.elim
  | wait n unit =>
    cases unit with
    | ticks => exact h.counted_ne hq
    | beats => exact h.counted_ne hq
    | _ => exact hq.elim

/-- **A request that fails changes nothing, unless it strains the clock.** This is so for every clock
and every request, whatever its numbers and its unit. A request that strains the clock always fails and
leaves it halfway, and even then the time and the duration of a tick stay. Of a list of requests that
never strains the clock, those that fail leave no trace. And a clock that was never strained is changed
by a request that fails exactly if that strains it. -/
theorem failing_changes_nothing (c : Clock) :
    (∀ q f, (c.ask q).2 = some f → ¬c.Strains q → (c.ask q).1 = c) ∧
      (∀ q, c.Strains q → c.ask q = (c.halfway q, some (.overflow .integerTooLarge))) ∧
      (∀ q f, (c.ask q).2 = some f →
        (c.ask q).1.now = c.now ∧ (c.ask q).1.tickDuration = c.tickDuration) ∧
      (∀ seconds c' f, c.advanceWhole seconds = (c', .error f) → c' = c) ∧
      (∀ qs, c.Easy qs → c.asks (c.granted qs) = c.asks qs) ∧
      (c.Reachable → ∀ q f, (c.ask q).2 = some f → ((c.ask q).1 = c ↔ ¬c.Strains q)) := by
  refine ⟨fun q f hf h => ask_unchanged h hf, fun q h => ask_overflows h, fun q f hf => ask_shows hf,
    fun seconds c' f h => advanceWhole_unchanged h, fun qs h => asks_granted h, fun hc q f hf => ?_⟩
  refine ⟨fun hsame hq => ?_, fun h => ask_unchanged h hf⟩
  rw [ask_overflows hq] at hsame
  exact hc.halfway_ne hq hsame

end

theorem failing_changes_nothing_initial :
    initial.Reachable ∧ (∃ f, (initial.ask (.wait (-1) .beats)).2 = some f) ∧
      (initial.ask (.wait (-1) .beats)).1 = initial ∧
      ¬initial.Strains (.wait (10 ^ 400) .seconds) ∧
      (initial.ask (.wait (10 ^ 400) .seconds)).1 = initial ∧
      initial.asks [.tempo 90 480, .wait (-1) .beats, .tempo 0 1, .wait 2 .beats] =
        initial.asks [.tempo 90 480, .wait 2 .beats] ∧
      initial.ask (.ticks (10 ^ 309)) =
        (initial.counted (10 ^ 309), some (.overflow .integerTooLarge)) := by
  obtain ⟨hsame, hstrains, -, -, hasks, hiff⟩ := failing_changes_nothing initial
  have hreached : initial.Reachable := .start (by decide +kernel : start 120 32 = .ok initial)
  have hbeats : (initial.ask (.wait (-1) .beats)).2 =
      some (.advance (.negativeTicks (-32))) := by decide +kernel
  have hfar : (initial.ask (.wait (10 ^ 400) .seconds)).2 =
      some (.overflow .integerTooLarge) := by decide +kernel
  have heasy : initial.Easy [.tempo 90 480, .wait (-1) .beats, .tempo 0 1, .wait 2 .beats] := by
    decide +kernel
  have hgranted : initial.granted [.tempo 90 480, .wait (-1) .beats, .tempo 0 1, .wait 2 .beats] =
      [.tempo 90 480, .wait 2 .beats] := by decide +kernel
  refine ⟨hreached, ⟨_, hbeats⟩, ?_, id, hsame _ _ hfar id, ?_, hstrains _ (by decide +kernel)⟩
  · exact (hiff hreached _ _ hbeats).mpr (by decide +kernel)
  · rw [← hasks _ heasy, hgranted]

/-- A tempo of so many ticks a minute that they are no number anymore: it is refused, but the clock has
it all the same, with ticks of the duration before. -/
theorem too_fast_a_tempo_stays :
    initial.ask (.tempo (10 ^ 308) (10 ^ 308)) =
        ({ initial with bpm := 10 ^ 308, ticksPerBeat := 10 ^ 308 },
          some (.overflow .integerTooLarge)) ∧
      (initial.ask (.tempo (10 ^ 308) (10 ^ 308))).1 ≠ initial := by
  decide +kernel

end Clock

end Ostinato
