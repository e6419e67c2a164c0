import Ostinato.Proofs.Performing

/-!
# Runs by themselves

`alone` plays a program with nobody to listen and nobody beside it, and stops it after a given number
of instructions, or never. What comes of it is told by the machine: the run is cancelled if the machine
gets so far (`alone_cancelled`), and else it ends with the program (`alone_ends`) or with a number that
is too large (`alone_fails`).
-/

namespace Ostinato

namespace Machine

theorem Stepped.cancelled {m m' : Machine} {out : Step} (hs : Stepped m m' out)
    (h : m'.state = .cancelled) : m.state = .cancelled := by
  cases hs with
  | finished => exact h
  | _ => cases h

theorem steps_state (p : Program) (n : Nat) : ((load p).steps n).state ≠ .cancelled := by
  induction n with
  | zero => exact fun h => nomatch h
  | succ n ih =>
    rw [steps_succ_last]
    exact fun h => ih (((load p).steps n).stepped.cancelled h)

end Machine

namespace Live

open Machine (load)

/-! ## Nobody listens -/

section
variable {part : Part} (hl : part.listeners = [])
include hl

theorem audience_nil (n : Notice) (deferred : Bool) : part.audience n deferred = [] := by
  rw [Part.audience, hl, List.filter_nil]

theorem defers_eq_false (n : Notice) : part.defers n = false := by
  rw [Part.defers, audience_nil hl]
  rfl

namespace Act
variable (a : Act)

theorem tell_nobody (n : Notice) : a.tell part n = (a, none) := by
  rw [tell, audience_nil hl]
  rfl

theorem tellDeferred_nobody (n : Notice) : a.tellDeferred part n = (a, none) := by
  rw [tellDeferred, audience_nil hl]
  rfl

theorem report_nobody (n : Notice) : a.report part n = (a, .more) := by
  rw [report, tell_nobody hl]
  dsimp only
  rw [defers_eq_false hl]
  rfl

def stepped : Act :=
  { a with
    rig := { a.rig with journal := a.machine.reportStep a.machine.step a.rig.journal }
    machine := a.machine.step.1 }

theorem perform_nobody (e : Event) : ∃ b : Act, a.perform part e = (b, .more) ∧
    b.account = a.account.deliver part.router e ∧ b.cancelled = a.cancelled := by
  obtain ⟨b, n, hb, haccount⟩ := a.perform_report part e
  have hreport := b.report_nobody hl n
  have hcancelled : (a.perform part e).1.cancelled = a.cancelled := by
    unfold perform
    split <;> rw [report_nobody hl]
  rw [hb, hreport] at hcancelled
  exact ⟨b, hb.trans hreport, haccount, hcancelled⟩

theorem enter_nobody : ∃ b : Act, a.enter part = (b, none) ∧ b.cancelled = a.cancelled := by
  unfold enter
  dsimp only
  rw [tell_nobody hl]
  exact ⟨_, rfl, rfl⟩

theorem conclude_nobody : ∃ b : Act, a.conclude part =
    (b, Run.result a.machine a.emitted a.errors.toList "", none) ∧ b.machine = a.machine ∧
      b.rig.sinks = (a.leave part).rig.sinks := by
  have hkept : (a.leave part).machine = a.machine ∧ (a.leave part).emitted = a.emitted ∧
      (a.leave part).errors = a.errors := by
    unfold leave
    split <;> exact ⟨rfl, rfl, rfl⟩
  obtain ⟨hmachine, hemitted, herrors⟩ := hkept
  have hleft : ∃ b : Act, a.conclude part =
      (b, Run.result (a.leave part).machine (a.leave part).emitted (a.leave part).errors.toList "",
        none) ∧ b.machine = (a.leave part).machine ∧ b.rig.sinks = (a.leave part).rig.sinks := by
    unfold conclude
    dsimp only
    rw [tell_nobody hl]
    exact ⟨_, rfl, rfl, rfl⟩
  rwa [hmachine, hemitted, herrors] at hleft

end Act

theorem finish_nobody (a : Act) : ∃ b : Act,
    finish part a = (b, .ok (Run.result a.machine a.emitted a.errors.toList "")) ∧
      b.rig.sinks = (a.leave part).rig.sinks := by
  obtain ⟨b, hb, -, hsinks⟩ := a.conclude_nobody hl
  unfold finish
  rw [hb]
  simp only [Act.andDeferred, b.tellDeferred_nobody hl]
  exact ⟨b, rfl, hsinks⟩

theorem finish_over {o : Outset} (hr : part.router = o.router) {n : Nat}
    {a : Act} (h : o.Over n a.account) : ∃ b : Act,
    finish part a = (b, .ok (o.result n a.machine "")) ∧
      b.rig.sinks = o.finalSinks n a.machine := by
  obtain ⟨b, hb, hsinks⟩ := finish_nobody hl a
  have hemitted : a.emitted = (o.books n).delivered.length := congrArg Account.emitted h.account
  have herrors : a.errors.toList = (o.books n).errors := congrArg Account.errors h.account
  rw [hemitted, herrors] at hb
  exact ⟨b, hb, hsinks.trans (Act.leave_sinks hr h.account)⟩

end

/-! ## One run -/

/-- What a run by itself sees. It gives way after every instruction. -/
def solo (router : Router) : Part := { router := router, yieldInterval := 1 }

theorem solo_nobody (router : Router) : (solo router).listeners = [] := rfl

/-- A run is found cancelled as soon as it has executed so many instructions. -/
def stopAfter (stop : Option Nat) : Cue := fun a _ => stop.any (· ≤ a.machine.executed)

/-- Plays a program by itself; it is cancelled after `stop` instructions, or never. -/
def alone (p : Program) (router : Router) (rig : Rig) (stop : Option Nat) (fuel : Nat) :
    Act × Option Ending :=
  play (solo router) (stopAfter stop) fuel
    { machine := load p, rig := rig, cancelled := stop == some 0 }

section
variable {o : Outset} {part : Part} {a : Act} {k n : Nat}

/-- One instruction that does not end the run takes it to its next scheduling point. -/
theorem stretch_one (hl : part.listeners = []) (hr : part.router = o.router)
    (h : o.Underway k a.account) (hc : a.cancelled = false)
    (hcalm : ∀ f, (o.machine k).step.2 ≠ .overflow f)
    (hgoing : (o.machine (k + 1)).isFinished = false) :
    ∃ (b : Act) (pause : Act.Pause), a.stretch part 1 = (b, pause) ∧
      (pause = .yield ∨ ∃ due, pause = .wait due) ∧ o.Underway (k + 1) b.account ∧
      b.cancelled = false := by
  have hm : a.machine = o.machine k := h.machine_eq
  have hgo : ¬ a.cancelled = true := by rw [hc]; exact Bool.false_ne_true
  rw [Outset.machine_succ] at hgoing
  unfold Act.stretch Act.turn
  rw [if_neg hgo]
  dsimp only
  cases hstep : a.machine.step.2 with
  | emit e =>
    obtain ⟨b, hb, haccount, hcancelled⟩ := Act.perform_nobody hl a.stepped e
    have hnext := h.emit hstep
    rw [← hr] at hnext
    unfold Act.stepped at hb
    dsimp only at hb ⊢
    rw [hb]
    exact ⟨b, .yield, rfl, .inl rfl, haccount ▸ hnext, hcancelled.trans hc⟩
  | suspend due ticks =>
    exact ⟨a.stepped, .wait due, rfl, .inr ⟨due, rfl⟩, h.silent (.inr ⟨due, ticks, hstep⟩), hc⟩
  | proceed t => exact ⟨a.stepped, .yield, rfl, .inl rfl, h.silent (.inl ⟨t, hstep⟩), hc⟩
  | halt t =>
    rw [hm] at hstep
    rw [(o.machine k).stepped.last (.inl ⟨t, hstep⟩)] at hgoing
    cases hgoing
  | fault f =>
    rw [hm] at hstep
    rw [(o.machine k).stepped.last (.inr ⟨f, hstep⟩)] at hgoing
    cases hgoing
  | overflow f =>
    rw [hm] at hstep
    exact absurd hstep (hcalm f)

theorem stretch_cancelled (part : Part) (h : o.Underway k a.account) (hc : a.cancelled = true) :
    ∃ b : Act, a.stretch part 1 = (b, .over) ∧ o.Over k b.account ∧
      b.machine = (o.machine k).cancel := by
  refine ⟨a.cancel, ?_, h.cancel, congrArg Machine.cancel h.machine_eq⟩
  unfold Act.stretch Act.turn
  rw [if_pos hc]

theorem stretch_last (part : Part) (h : o.Underway k a.account) (hc : a.cancelled = false)
    (hlast : (∃ t, (o.machine k).step.2 = .halt t) ∨ ∃ f, (o.machine k).step.2 = .fault f) :
    ∃ b : Act, a.stretch part 1 = (b, .over) ∧ o.Over (k + 1) b.account ∧
      b.machine = o.machine (k + 1) := by
  have hgo : ¬ a.cancelled = true := by rw [hc]; exact Bool.false_ne_true
  have hm : a.machine = o.machine k := h.machine_eq
  rw [← hm] at hlast
  refine ⟨a.stepped, ?_, h.last hlast, ?_⟩
  · unfold Act.stretch Act.turn
    rw [if_neg hgo]
    dsimp only
    rcases hlast with ⟨t, ht⟩ | ⟨f, hf⟩
    · rw [ht]
      rfl
    · rw [hf]
      rfl
  · rw [Outset.machine_succ, ← hm]
    rfl

theorem stretch_overflow (part : Part) (h : o.Underway k a.account) (hc : a.cancelled = false) {f : Overflow}
    (hf : (o.machine k).step.2 = .overflow f) :
    ∃ b : Act, a.stretch part 1 = (b, .failed (.overflow f)) ∧
      b.account = o.account (k + 1) := by
  have hgo : ¬ a.cancelled = true := by rw [hc]; exact Bool.false_ne_true
  have hm : a.machine = o.machine k := h.machine_eq
  rw [← hm] at hf
  refine ⟨a.stepped, ?_, h.quiet (congrArg Step.event? hf)⟩
  unfold Act.stretch Act.turn
  rw [if_neg hgo]
  dsimp only
  rw [hf]
  rfl

end

/-! ## The whole run -/

section
variable {o : Outset} {n : Nat} {rig : Rig}

theorem alone_goes (stop : Option Nat) (hrig : rig.sinks = o.sinks)
    (hcalm : (load o.program).Calm n) (hgoing : ∀ k ≤ n, (o.machine k).isFinished = false)
    (hstop : ∀ s, stop = some s → n ≤ s) :
    ∃ a : Act, o.Underway n a.account ∧ a.cancelled = (stop == some n) ∧
      ∀ fuel, alone o.program o.router rig stop (n + fuel) =
        playFrom (solo o.router) (stopAfter stop) fuel 1 a := by
  induction n with
  | zero =>
    obtain ⟨a, ha, hcancelled⟩ := Act.enter_nobody (solo_nobody o.router)
      { machine := load o.program, rig := rig, cancelled := stop == some 0 }
    have hentered := Act.enter_account (o := o)
      { machine := load o.program, rig := rig, cancelled := stop == some 0 } (solo o.router) rfl hrig
    rw [ha] at hentered
    refine ⟨a, hentered ▸ o.underway_zero, hcancelled, fun fuel => ?_⟩
    unfold alone play
    rw [ha]
    simp only [Act.andDeferred, Act.tellDeferred_nobody (solo_nobody o.router), Nat.zero_add]
    rfl
  | succ n ih =>
    obtain ⟨a, hunder, hcancelled, hplay⟩ := ih (fun k hk => hcalm k (Nat.lt_succ_of_lt hk))
      (fun k hk => hgoing k (Nat.le_succ_of_le hk)) fun s hs => Nat.le_of_succ_le (hstop s hs)
    have hgo : a.cancelled = false := by
      rw [hcancelled, beq_eq_false_iff_ne]
      exact fun hs => absurd (hstop n hs) (Nat.not_succ_le_self n)
    obtain ⟨b, pause, hb, hpause, hnext, hkept⟩ := stretch_one (solo_nobody o.router) rfl hunder
      hgo (hcalm n (Nat.lt_succ_self n)) (hgoing (n + 1) (Nat.le_refl _))
    have hexecuted : b.machine.executed = n + 1 := by
      have hm : b.machine = o.machine (n + 1) := hnext.machine_eq
      have hcount := Machine.executed_steps (load o.program) hgoing
      rw [hm]
      exact hcount.trans (Nat.zero_add _)
    -- The run is told at the pause, and not before, that it has come far enough.
    have hcue : (b.cancelled || stopAfter stop b pause) = (stop == some (n + 1)) := by
      rw [hkept, Bool.false_or]
      unfold stopAfter
      rw [hexecuted]
      cases stop with
      | none => rfl
      | some s =>
        have hle := hstop s rfl
        rw [Bool.eq_iff_iff]
        simp only [Option.any_some, decide_eq_true_eq, beq_iff_eq, Option.some.injEq]
        omega
    refine ⟨{ b with cancelled := stop == some (n + 1) }, hnext, rfl, fun fuel => ?_⟩
    rw [Nat.add_assoc, Nat.add_comm 1, hplay, playFrom, hb, ← hcue]
    rcases hpause with rfl | ⟨due, rfl⟩ <;> rfl

/-- A run by itself that is stopped after `n` instructions. -/
theorem alone_cancelled (hrig : rig.sinks = o.sinks) (hcalm : (load o.program).Calm n)
    (hgoing : ∀ k ≤ n, (o.machine k).isFinished = false) :
    ∃ (fuel : Nat) (a : Act), alone o.program o.router rig (some n) fuel =
        (a, some (.ok (o.result n (o.machine n).cancel ""))) ∧
      a.rig.sinks = o.finalSinks n (o.machine n).cancel := by
  obtain ⟨a, hunder, hcancelled, hplay⟩ := alone_goes (some n) hrig hcalm hgoing
    fun s hs => by cases hs; exact Nat.le_refl n
  obtain ⟨b, hb, hover, hm⟩ := stretch_cancelled (solo o.router) hunder
    (by rw [hcancelled, beq_self_eq_true])
  obtain ⟨c, hc, hsinks⟩ := finish_over (solo_nobody o.router) rfl hover
  refine ⟨n + 1, c, ?_, ?_⟩
  · rw [hplay, playFrom, hb, ← hm]
    simp only [hc, Prod.map, id]
  · rw [hsinks, hm]

/-- A run by itself that nobody stops, to the end of its program. -/
theorem alone_ends (hrig : rig.sinks = o.sinks) (hcalm : (load o.program).Calm (n + 1))
    (hgoing : ∀ k ≤ n, (o.machine k).isFinished = false)
    (hlast : (o.machine (n + 1)).isFinished = true) :
    ∃ (fuel : Nat) (a : Act), alone o.program o.router rig none fuel =
        (a, some (.ok (o.result (n + 1) (o.machine (n + 1)) ""))) ∧
      a.rig.sinks = o.finalSinks (n + 1) (o.machine (n + 1)) := by
  obtain ⟨a, hunder, hcancelled, hplay⟩ := alone_goes none hrig
    (fun k hk => hcalm k (Nat.lt_succ_of_lt hk)) hgoing fun s hs => by cases hs
  have hstep : (∃ t, (o.machine n).step.2 = .halt t) ∨ ∃ f, (o.machine n).step.2 = .fault f := by
    by_contra hnot
    rw [not_or, not_exists, not_exists] at hnot
    rw [Outset.machine_succ, (o.machine n).stepped.goes_on hnot.1 hnot.2] at hlast
    cases hlast
  obtain ⟨b, hb, hover, hm⟩ := stretch_last (solo o.router) hunder hcancelled hstep
  obtain ⟨c, hc, hsinks⟩ := finish_over (solo_nobody o.router) rfl hover
  refine ⟨n + 1, c, ?_, ?_⟩
  · rw [hplay, playFrom, hb, ← hm]
    simp only [hc, Prod.map, id]
  · rw [hsinks, hm]

/-- A run by itself that nobody stops, to a number that is too large. -/
theorem alone_fails (hrig : rig.sinks = o.sinks) (hcalm : (load o.program).Calm n)
    (hgoing : ∀ k ≤ n, (o.machine k).isFinished = false) {f : Overflow}
    (hf : (o.machine n).step.2 = .overflow f) :
    ∃ (fuel : Nat) (a : Act), alone o.program o.router rig none fuel =
        (a, some (.error (.overflow f))) ∧
      a.rig.sinks = o.finalSinks (n + 1) (o.machine (n + 1)) := by
  obtain ⟨a, hunder, hcancelled, hplay⟩ := alone_goes none hrig hcalm hgoing
    fun s hs => by cases hs
  obtain ⟨b, hb, haccount⟩ := stretch_overflow (solo o.router) hunder hcancelled hf
  have hm : b.machine = o.machine (n + 1) := congrArg Account.machine haccount
  have hsame : b.account = { o.account (n + 1) with machine := b.machine } := by
    rw [hm]
    exact haccount
  refine ⟨n + 1, b.leave (solo o.router), ?_, ?_⟩
  · rw [hplay, playFrom, hb]
  · rw [Act.leave_sinks (show (solo o.router).router = o.router from rfl) hsame, hm]

end

/-- After how many instructions a run was stopped that ended so. -/
def stopOf : Ending → Option Nat
  | .ok r => if r.state = .cancelled then some r.executed else none
  | .error _ => none

theorem alone_over {o : Outset} {n : Nat} {a : Account} {rig : Rig} (hrig : rig.sinks = o.sinks)
    (h : o.Over n a) :
    ∃ (fuel : Nat) (b : Act),
      alone o.program o.router rig (stopOf (.ok (o.result n a.machine ""))) fuel =
        (b, some (.ok (o.result n a.machine ""))) ∧
      b.rig.sinks = o.finalSinks n a.machine := by
  rcases h.stopped with ⟨hm, hfinished⟩ | ⟨hm, hgoing⟩
  · cases n with
    | zero => cases hfinished
    | succ n =>
      have hstate : ¬ (o.result (n + 1) a.machine "").state = .cancelled := by
        show ¬ a.machine.state = .cancelled
        rw [hm]
        exact Machine.steps_state o.program (n + 1)
      rw [stopOf, if_neg hstate, hm]
      exact alone_ends hrig h.calm (fun k hk => h.going k (Nat.lt_succ_of_le hk)) hfinished
  · have hall : ∀ k ≤ n, (o.machine k).isFinished = false := by
      intro k hk
      rcases Nat.lt_or_eq_of_le hk with hk | rfl
      · exact h.going k hk
      · exact hgoing
    have hstate : (o.result n a.machine "").state = .cancelled := by
      show a.machine.state = .cancelled
      rw [hm, Machine.cancel_state hgoing]
    have hexecuted : (o.result n a.machine "").executed = n := by
      have hcount := Machine.executed_steps (load o.program) hall
      show a.machine.executed = n
      rw [hm, Machine.cancel_executed]
      exact hcount.trans (Nat.zero_add n)
    rw [stopOf, if_pos hstate, hexecuted, hm]
    exact alone_cancelled hrig h.calm hall

end Live

end Ostinato
