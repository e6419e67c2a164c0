import Ostinato.Proofs.Onward
import Ostinato.Proofs.Rendering

/-!
# Limits

What a render without a router collects is an account of the program alone: `Limits.cut` takes the
events of an unlimited run, keeps those before the limits on time and takes so many of them as may be
collected. The render finds out about its limits at different points of its loop and stops at the
first that is reached. Since nothing is emitted too early (`Orderly.emitted_onward`), it loses nothing
by that: what is past a limit on time is followed only by events that are past it too.
-/

namespace Ostinato

open Machine (load)
open Binary64 (one)

-- The value of this one is too large to be computed with.
attribute [local irreducible] one

/-! ## Bounds on time -/

namespace SecondsBound

def IsNumber : SecondsBound → Prop
  | whole _ => True
  | real x => x.IsNumber

/-- Where a bound stands among the binary64 numbers. -/
def place : SecondsBound → WithBot (WithTop Int)
  | whole n => ((n * one : Int) : WithTop Int)
  | real x => x.place

/-- Whether a time comes before a bound. -/
def follows (b : SecondsBound) (time : Binary64) : Bool :=
  match b, time with
  | real x, t => t.lt x
  | whole _, .nan _ => false
  | whole _, .inf s => s
  | whole n, .fin s mag => (if s then -(mag : Int) else mag) < n * one

variable {b : SecondsBound} {time : Binary64}

theorem follows_iff (hb : b.IsNumber) (ht : time.IsNumber) :
    b.follows time = true ↔ time.place < b.place := by
  match b, time, ht with
  | real x, t, ht => exact Binary64.lt_iff_place ht hb
  | whole n, .inf true, _ => exact iff_of_true rfl (WithBot.bot_lt_coe _)
  | whole n, .inf false, _ =>
    exact iff_of_false Bool.false_ne_true (by simp [place, Binary64.place])
  | whole n, .fin s mag, _ =>
    cases s <;>
      exact decide_eq_true_iff.trans (WithBot.coe_lt_coe.trans WithTop.coe_lt_coe).symm

theorem reached_eq (hb : b.IsNumber) (ht : time.IsNumber) : b.reached time = !b.follows time := by
  match b, time, ht with
  | real x, t, ht =>
    rw [Bool.eq_iff_iff, Bool.not_eq_true']
    exact Binary64.le_iff_not_lt hb ht
  | whole n, .inf s, _ => rfl
  | whole n, .fin s mag, _ =>
    show decide (n * (one : Int) ≤ _) = !decide (_ < n * (one : Int))
    rw [← decide_not]
    exact decide_eq_decide.mpr Int.not_lt.symm

end SecondsBound

namespace Limits

/-- Whether an event at some time and tick comes before the limits on time. -/
def admits (l : Limits) (time : Binary64) (tick : Int) : Bool :=
  l.maxSeconds.all (·.follows time) && l.maxTicks.all (tick < ·)

/-- The events that a run with limits keeps: those before the limits on time, and of these no more
than are asked for. -/
def cut (l : Limits) (es : List Event) : List Event :=
  let kept := es.filter fun e => l.admits e.time e.tick
  match l.maxEvents with
  | none => kept
  | some n => kept.take n.toNat

/-- The limit on seconds, if there is one, is not a NaN. -/
def IsNumeric (l : Limits) : Prop := ∀ b ∈ l.maxSeconds, b.IsNumber

variable {l : Limits} {time time' : Binary64} {tick tick' : Int}

theorem timeReason?_eq_none (hl : l.IsNumeric) (ht : time.IsNumber) :
    l.timeReason? time tick = none ↔ l.admits time tick = true := by
  unfold timeReason? admits
  rcases hs : l.maxSeconds with _ | b
  · rcases l.maxTicks with _ | t <;> simp
  · have hreached := SecondsBound.reached_eq (hl b hs) ht
    rcases l.maxTicks with _ | t <;> cases hf : b.follows time <;> simp [hreached, hf]

/-- What is past a limit is followed only by what is past it too. -/
theorem admits_antitone (hl : l.IsNumeric) (htime : time.le time' = true) (htick : tick ≤ tick')
    (h : l.admits time' tick' = true) : l.admits time tick = true := by
  obtain ⟨ht, ht', hplace⟩ := Binary64.le_iff.mp htime
  rw [admits, Bool.and_eq_true, Option.all_eq_true, Option.all_eq_true] at h ⊢
  refine ⟨fun b hb => ?_, fun t hmax => ?_⟩
  · have hfollows := (SecondsBound.follows_iff (hl b hb) ht').mp (h.1 b hb)
    exact (SecondsBound.follows_iff (hl b hb) ht).mpr (hplace.trans_lt hfollows)
  · have hlt := of_decide_eq_true (h.2 t hmax)
    exact decide_eq_true (by omega)

/-- Events that are all kept are what is kept of a longer run, if the limits keep no more of it. -/
theorem cut_append {es rest : List Event} (hes : ∀ e ∈ es, l.admits e.time e.tick = true)
    (hroom : ∀ n, l.maxEvents = some n → es.length ≤ n.toNat)
    (hrest : rest.filter (fun e => l.admits e.time e.tick) = [] ∨
      ∃ n, l.maxEvents = some n ∧ n.toNat ≤ es.length) : l.cut (es ++ rest) = es := by
  unfold cut
  rw [List.filter_append, List.filter_eq_self.mpr hes]
  dsimp only
  rcases hmax : l.maxEvents with _ | n
  · rcases hrest with hrest | ⟨n, hn, -⟩
    · rw [hrest, List.append_nil]
    · rw [hmax] at hn
      cases hn
  · rcases hrest with hrest | ⟨n', hn, hle⟩
    · rw [hrest, List.append_nil]
      exact List.take_of_length_le (hroom n hmax)
    · rw [hmax] at hn
      cases hn
      dsimp only
      rw [List.take_append_of_le_length hle]
      exact List.take_of_length_le (hroom n hmax)

end Limits

namespace Machine

theorem executed_steps_le (m : Machine) (n : Nat) : (m.steps n).executed ≤ m.executed + n := by
  induction n with
  | zero => exact Nat.le_refl _
  | succ n ih =>
    have hstep := (m.steps n).stepped.executed_le_succ
    rw [steps_succ_last]
    omega

end Machine

namespace Render

section
variable {q : Request} {p : Program} {sinks : Sinks} {n N : Nat} {s : State}

theorem Cause.le (h : Cause q p n s N) : n ≤ N := by
  cases h with
  | done => exact Nat.le_refl n
  | cut _ _ hcut =>
    cases hcut with
    | late => exact Nat.le_succ n
    | _ => exact Nat.le_refl n

theorem Ended.executed (h : Ended q p sinks n N s) : s.machine.executed ≤ N := by
  have hsteps := (load p).executed_steps_le N
  rw [show (load p).executed = 0 from rfl, Nat.zero_add] at hsteps
  cases h.cause with
  | done hm => rwa [hm]
  | cut hm => rwa [hm, Machine.cancel_executed]

/-- The events still to come once a limit on time has been reached are past it. -/
theorem filter_later (hl : q.limits.IsNumeric)
    (ht : q.limits.timeReason? ((load p).steps n).clock.now ((load p).steps n).clock.ticks ≠ none)
    (k : Nat) :
    (((load p).steps n).emitted k).filter (fun e => q.limits.admits e.time e.tick) = [] := by
  have horderly := (Machine.load_orderly p).steps n
  rw [List.filter_eq_nil_iff]
  intro e he hadmits
  obtain ⟨htime, htick⟩ := horderly.emitted_onward k e he
  apply ht
  exact (Limits.timeReason?_eq_none hl horderly.now.isNumber).mpr
    (Limits.admits_antitone hl htime htick hadmits)

/-- **A render that has ended has collected what its limits keep** of everything that its program
emits within the limit on steps. -/
theorem Ended.events_cut (h : Ended q p sinks n N s) (hrouter : q.router = none)
    (hcancel : q.cancelled = none) (hl : q.limits.IsNumeric) {M : Nat}
    (hM : q.limits.maxSteps = some (M : Int)) (hE : ∀ E, q.limits.maxEvents = some E → 1 ≤ E) :
    s.events.toList = q.limits.cut ((load p).emitted M) := by
  have hevents : s.events.toList = (load p).emitted n := by
    have hholds := h.holds.events
    rwa [Request.books, hrouter] at hholds
  have hsize : s.events.size = ((load p).emitted n).length := by
    rw [← hevents, Array.length_toList]
  have hN : N ≤ M := Int.ofNat_le.mp (h.steps M hM (Int.natCast_nonneg M))
  have hn : n ≤ N := h.cause.le
  rw [hevents, (load p).emitted_split (Nat.le_trans hn hN)]
  symm
  apply Limits.cut_append
  · intro e he
    have htime := ((Machine.load_orderly p).emitted_onward n e he).1
    exact (Limits.timeReason?_eq_none hl (Binary64.le_iff.mp htime).2.1).mp (h.early e he)
  · intro E hmax
    have hroom := h.room E hmax
    have hpositive := hE E hmax
    omega
  · -- Nothing more is kept, or there is no room for it.
    cases h.cause with
    | done _ hfinished =>
      rw [Machine.emitted_eq_nil hfinished]
      exact .inl rfl
    | cut _ _ hcut =>
      cases hcut with
      | cancelled hc =>
        rw [isCancelled, hcancel] at hc
        cases hc
      | steps hM' hle =>
        rw [hM] at hM'
        cases hM'
        rw [show M - n = 0 by omega]
        exact .inl rfl
      | time ht => exact .inl (filter_later hl ht _)
      | events hmax hle => exact .inr ⟨_, hmax, by omega⟩
      | late he ht =>
        refine .inl (filter_later hl ?_ _)
        have hs := ((load p).steps n).stepped
        rw [he] at hs
        rwa [← hs.event_clock.1, ← hs.event_clock.2]

end

/-- **A render is a cut of its program's run.** Without a router and a way to cancel it, a render
with a limit on steps comes to an end: with those events of the steps it may make that come before
the limits on time, up to the number asked for, or with the overflow that one of these steps meets,
which is a number too large unless the step is at a note made by hand. -/
theorem render_cut (p : Program) (l : Limits) (rig : Rig) (patience M : Nat)
    (hM : l.maxSteps = some (M : Int)) (hl : l.IsNumeric) (hE : ∀ E, l.maxEvents = some E → 1 ≤ E) :
    (∃ rig' r, render p { limits := l } rig patience = (rig', .ok r) ∧
        r.events = l.cut ((load p).emitted M) ∧ r.result.executed ≤ M) ∨
      ∃ rig' o k, render p { limits := l } rig patience = (rig', .error (.overflow o)) ∧
        k < M ∧ (load p).Calm k ∧ ((load p).steps k).step.2 = .overflow o ∧
        (o.isTooLarge = true ∨ ∃ s, ((load p).steps k).instruction? = some (.looseSend s)) := by
  rcases render_total (q := { limits := l }) hM (Int.natCast_nonneg M) p rig patience with
    ⟨rig', r, hrender⟩ | ⟨rig', o, hrender⟩
  · obtain ⟨n, N, s, hended, hfinish⟩ := ended_of_render hrender
    cases hfinish
    refine .inl ⟨_, _, hrender, hended.events_cut rfl rfl hl hM hE, ?_⟩
    have hN := hended.steps M hM (Int.natCast_nonneg M)
    have hexecuted := hended.executed
    show s.machine.executed ≤ M
    omega
  · obtain ⟨k, s, hstrained, -⟩ := strained_of_render hrender
    have hstepped := ((load p).steps k).stepped
    rw [hstrained.overflow] at hstepped
    have hkept := hstrained.calm.smooth.kept (Machine.load_kept p) (Nat.le_refl k)
    exact .inr ⟨rig', o, k, hrender, Int.ofNat_lt.mp (hstrained.steps M hM), hstrained.calm,
      hstrained.overflow, (hstepped.isTooLarge hkept).imp_right And.right⟩

/-- Limits of every kind. Of the eight events of `mixedTimes` five come before two seconds and six
before tick 970. -/
def fourLimits : Limits where
  maxSeconds := some (.whole 2)
  maxTicks := some 970
  maxEvents := some 4
  maxSteps := some 23

theorem render_cut_mixed : ∃ rig' r,
    render Machine.mixedTimes { limits := fourLimits } {} 0 = (rig', .ok r) ∧ r.events.length = 4 ∧
      r.events = fourLimits.cut ((load Machine.mixedTimes).emitted 23) ∧ r.result.executed ≤ 23 := by
  have hlength : (render Machine.mixedTimes { limits := fourLimits } {} 0).2.toOption.map
      (·.events.length) = some 4 := by decide +kernel
  have hseconds : fourLimits.IsNumeric := by
    intro b hb
    cases hb
    trivial
  have hroom : ∀ E, fourLimits.maxEvents = some E → 1 ≤ E := by
    intro E hmax
    cases hmax
    decide
  rcases render_cut Machine.mixedTimes fourLimits {} 0 23 rfl hseconds hroom with
    ⟨rig', r, hrender, hcut⟩ | ⟨rig', o, k, hrender, -⟩
  · rw [hrender] at hlength
    exact ⟨rig', r, hrender, Option.some.inj hlength, hcut⟩
  · rw [hrender] at hlength
    cases hlength

end Render

end Ostinato
