import Ostinato.Proofs.Drivers
import Ostinato.Render

/-!
# Renders

`Turned` lists what a turn of a render can do, with its guards. While a render is `Running` it has
handled every step of its machine and no limit has been reached. When it goes on no more it has
`Ended`, because its program is done or for one of the reasons that `Cut` lists; only a limit on time
is found to be reached by the event that is past it, so the machine of such a render has made one step
more than the render has handled. The step lemma is `Running.turn_stands` and the run lemma
`Running.turns_stands`.
-/

namespace Ostinato.Render

open Machine (load)

/-! ## What a turn can do -/

section
variable (q : Request) (s : State)

def State.checked : State := { s with checks := s.checks + 1 }

def State.warned (limit : Int) : State :=
  { s.checked with rig := s.rig.report .warning .player fun _ =>
      "Render stopped at the " ++ toString limit ++ "-instruction safety limit" }

def State.stepped : State :=
  { s.checked with
    rig := { s.rig with journal := s.machine.reportStep s.machine.step s.rig.journal }
    machine := s.machine.step.1 }

/-- Neither a cancellation nor the limit on steps keeps the machine from a step. -/
structure Proceeds : Prop where
  cancelled : isCancelled q s.checks = false
  steps : q.limits.stepsReached? s.machine.executed = none

inductive Turned : State → Verdict → Prop where
  | cancelled : isCancelled q s.checks = true → Turned (s.checked.stop "cancelled") .over
  | outOfSteps {limit : Int} : q.limits.stepsReached? s.machine.executed = some limit →
      Turned ((s.warned limit).stop ("max_steps limit (" ++ toString limit ++ ") reached")) .over
  | late {e : Event} {reason : String} : Proceeds q s → s.machine.step.2 = .emit e →
      q.limits.timeReason? e.time e.tick = some reason → Turned (s.stepped.stop reason) .over
  | full {e : Event} {reason : String} : Proceeds q s → s.machine.step.2 = .emit e →
      q.limits.timeReason? e.time e.tick = none →
      q.limits.eventsReason? (s.stepped.collect q.router e).events.size = some reason →
      Turned ((s.stepped.collect q.router e).stop reason) .more
  | collected {e : Event} : Proceeds q s → s.machine.step.2 = .emit e →
      q.limits.timeReason? e.time e.tick = none →
      q.limits.eventsReason? (s.stepped.collect q.router e).events.size = none →
      Turned (s.stepped.collect q.router e) .more
  | timeOver {due : Binary64} {ticks : Int} {reason : String} : Proceeds q s →
      s.machine.step.2 = .suspend due ticks →
      q.limits.timeReason? s.stepped.machine.clock.now s.stepped.machine.clock.ticks = some reason →
      Turned (s.stepped.stop reason) .more
  | waited {due : Binary64} {ticks : Int} : Proceeds q s → s.machine.step.2 = .suspend due ticks →
      q.limits.timeReason? s.stepped.machine.clock.now s.stepped.machine.clock.ticks = none →
      Turned s.stepped .more
  | moved {time : Binary64} : Proceeds q s → s.machine.step.2 = .proceed time →
      Turned s.stepped .more
  | halted {time : Binary64} : Proceeds q s → s.machine.step.2 = .halt time →
      Turned s.stepped .more
  | faulted {f : Fault} : Proceeds q s → s.machine.step.2 = .fault f → Turned s.stepped .over
  | overflowed {o : Overflow} : Proceeds q s → s.machine.step.2 = .overflow o →
      Turned s.stepped (.overflow o)

theorem turned : Turned q s (turn q s).1 (turn q s).2 := by
  unfold turn
  dsimp only
  split
  · rename_i hc
    exact .cancelled hc
  · rename_i hc
    split
    · rename_i hlimit
      exact .outOfSteps hlimit
    · rename_i hlimit
      have hp : Proceeds q s := ⟨by simpa using hc, hlimit⟩
      show Turned q s (s.stepped.after q s.machine.step.2).1 (s.stepped.after q s.machine.step.2).2
      cases hout : s.machine.step.2 with
      | emit e =>
        unfold State.after
        dsimp only
        split
        · rename_i ht
          exact .late hp hout ht
        · rename_i ht
          split
          · rename_i he
            exact .full hp hout ht he
          · rename_i he
            exact .collected hp hout ht he
      | suspend due ticks =>
        unfold State.after
        dsimp only
        split
        · rename_i ht
          exact .timeOver hp hout ht
        · rename_i ht
          exact .waited hp hout ht
      | proceed t => exact .moved hp hout
      | halt t => exact .halted hp hout
      | fault f => exact .faulted hp hout
      | overflow o => exact .overflowed hp hout

end

/-! ## What a render keeps -/

/-- The books of events that are collected: those of the router, or else all are delivered. -/
def Request.books (q : Request) (sinks : Sinks) (es : List Event) : Books :=
  match q.router with
  | none => { sinks := sinks, delivered := es }
  | some r => r.books sinks es

def Request.enter (q : Request) (b : Books) (e : Event) : Books :=
  match q.router with
  | none => { b with delivered := b.delivered ++ [e] }
  | some r => b.enter r e

/-- A render has kept some books. -/
structure State.Holds (s : State) (q : Request) (b : Books) : Prop where
  sinks : s.rig.sinks = b.sinks
  events : s.events.toList = b.delivered
  errors : s.errors.toList = b.errors
  sounding : q.router ≠ none → s.sounding = Sounding.after {} b.delivered

section
variable {q : Request} {s : State} {b : Books}

theorem Request.books_concat (q : Request) (sinks : Sinks) (es : List Event) (e : Event) :
    q.books sinks (es ++ [e]) = q.enter (q.books sinks es) e := by
  unfold books enter
  cases q.router with
  | none => rfl
  | some r => exact Ostinato.books_concat r sinks es e

/-- With a router they are the books of a run. -/
theorem Request.books_router {r : Router} (hq : q.router = some r) (sinks : Sinks) (es : List Event) :
    q.books sinks es = r.books sinks es := by
  unfold books
  rw [hq]

theorem State.collect_machine (s : State) (router : Option Router) (e : Event) :
    (s.collect router e).machine = s.machine ∧ (s.collect router e).reason = s.reason := by
  unfold collect
  cases router with
  | none => exact ⟨rfl, rfl⟩
  | some r =>
    dsimp only
    split <;> exact ⟨rfl, rfl⟩

theorem State.collect_size (s : State) (router : Option Router) (e : Event) :
    (s.collect router e).events.size ≤ s.events.size + 1 := by
  unfold collect
  cases router with
  | none => simp
  | some r =>
    dsimp only
    split <;> simp

theorem State.Holds.collect (h : s.Holds q b) (e : Event) :
    (s.collect q.router e).Holds q (q.enter b e) := by
  unfold State.collect Request.enter
  cases hq : q.router with
  | none => exact ⟨h.sinks, by simp [h.events], h.errors, fun hr => absurd hq hr⟩
  | some r =>
    obtain ⟨hsinks, hfault⟩ := deliver_post r s.rig e
    rw [h.sinks] at hsinks hfault
    have hsounding := h.sounding (by simp [hq])
    dsimp only
    rcases b.enter_cases r e with ⟨hnone, henter⟩ | ⟨f, hsome, henter⟩
    · rw [hnone] at hfault
      rw [henter]
      split
      · rename_i rig hrig
        rw [hrig] at hsinks
        exact ⟨hsinks, by simp [h.events], h.errors,
          fun _ => by rw [hsounding, Sounding.after_concat]⟩
      · rename_i hrig
        rw [hrig] at hfault
        cases hfault
    · rw [hsome] at hfault
      rw [henter]
      split
      · rename_i hrig
        rw [hrig] at hfault
        cases hfault
      · rename_i rig f' hrig
        rw [hrig] at hsinks hfault
        cases hfault
        exact ⟨hsinks, h.events, by simp [h.errors], fun _ => hsounding⟩

/-- Neither the journal nor the machine has a part in it. -/
theorem State.Holds.congr (h : s.Holds q b) {s' : State} (hr : s'.rig.sinks = s.rig.sinks)
    (he : s'.events = s.events) (hf : s'.errors = s.errors) (hs : s'.sounding = s.sounding) :
    s'.Holds q b :=
  ⟨hr ▸ h.sinks, he ▸ h.events, hf ▸ h.errors, fun hq => hs ▸ h.sounding hq⟩

end

/-! ## Running and ended -/

/-- A render that has handled `n` steps. -/
structure Handled (q : Request) (p : Program) (sinks : Sinks) (n : Nat) (s : State) : Prop where
  machine : s.machine = (load p).steps n
  calm : (load p).Calm n
  going : ∀ k ≤ n, ((load p).steps k).isFinished = false
  holds : s.Holds q (q.books sinks ((load p).emitted n))
  early : ∀ e ∈ (load p).emitted n, q.limits.timeReason? e.time e.tick = none
  /-- The limit on events is looked at only after an event, so one is always let through. -/
  room : ∀ E, q.limits.maxEvents = some E → (s.events.size : Int) ≤ max 1 E
  steps : ∀ M, q.limits.maxSteps = some M → 0 ≤ M → (n : Int) ≤ M
  reason : s.reason = ""

structure Running (q : Request) (p : Program) (sinks : Sinks) (n : Nat) (s : State) : Prop
    extends Handled q p sinks n s where
  free : ∀ E, q.limits.maxEvents = some E → (s.events.size : Int) < max 1 E

/-- Why a render that has handled `n` steps is stopped, and how many its machine has made. -/
inductive Cut (q : Request) (p : Program) (n : Nat) (s : State) : Nat → Prop where
  | cancelled {check : Nat} : isCancelled q check = true → Cut q p n s n
  | steps {M : Int} : q.limits.maxSteps = some M → M ≤ n → Cut q p n s n
  | time : q.limits.timeReason? ((load p).steps n).clock.now ((load p).steps n).clock.ticks ≠ none →
      Cut q p n s n
  | events {E : Int} : q.limits.maxEvents = some E → E ≤ s.events.size → Cut q p n s n
  /-- An event is past a limit on time. -/
  | late {e : Event} : ((load p).steps n).step.2 = .emit e →
      q.limits.timeReason? e.time e.tick ≠ none → Cut q p n s (n + 1)

/-- Why a render that has handled `n` of the `N` steps of its machine goes on no more. -/
inductive Cause (q : Request) (p : Program) (n : Nat) (s : State) : Nat → Prop where
  /-- The program has ended, or has failed. -/
  | done : s.machine = (load p).steps n → ((load p).steps n).isFinished = true → s.reason = "" →
      Cause q p n s n
  | cut {N : Nat} : s.machine = ((load p).steps N).cancel → ((load p).steps N).isFinished = false →
      Cut q p n s N → Cause q p n s N

/-- A render that goes on no more. -/
structure Ended (q : Request) (p : Program) (sinks : Sinks) (n N : Nat) (s : State) : Prop where
  cause : Cause q p n s N
  calm : (load p).Calm N
  going : ∀ k < N, ((load p).steps k).isFinished = false
  holds : s.Holds q (q.books sinks ((load p).emitted n))
  early : ∀ e ∈ (load p).emitted n, q.limits.timeReason? e.time e.tick = none
  room : ∀ E, q.limits.maxEvents = some E → (s.events.size : Int) ≤ max 1 E
  steps : ∀ M, q.limits.maxSteps = some M → 0 ≤ M → (N : Int) ≤ M

/-- A render whose machine has broken off a step, after `n` others. -/
structure Strained (q : Request) (p : Program) (sinks : Sinks) (n : Nat) (o : Overflow)
    (s : State) : Prop where
  overflow : ((load p).steps n).step.2 = .overflow o
  calm : (load p).Calm n
  holds : s.Holds q (q.books sinks ((load p).emitted n))
  room : ∀ E, q.limits.maxEvents = some E → (s.events.size : Int) ≤ max 1 E
  steps : ∀ M, q.limits.maxSteps = some M → (n : Int) < M

/-- How a render stands with a verdict, if its machine can have made `n` steps. -/
def Verdict.Stands (q : Request) (p : Program) (sinks : Sinks) (n : Nat) (s : State) : Verdict → Prop
  | .more => Running q p sinks n s ∨ ∃ k, Ended q p sinks k n s
  | .over => ∃ k N, Ended q p sinks k N s
  | .overflow o => ∃ k, Strained q p sinks k o s

section
variable {q : Request} {p : Program} {sinks : Sinks} {n N : Nat} {s s' : State} {e : Event}

theorem Ended.finished (h : Ended q p sinks n N s) : s.machine.isFinished = true := by
  cases h.cause with
  | done hm hf => rw [hm, hf]
  | cut hm =>
    rw [hm]
    exact Machine.cancel_isFinished _

/-- Neither the journal nor the checks have a part in it. -/
theorem Handled.congr (h : Handled q p sinks n s) (s' : State) (hm : s'.machine = s.machine)
    (hr : s'.reason = s.reason) (he : s'.events = s.events)
    (hh : s.Holds q (q.books sinks ((load p).emitted n)) →
      s'.Holds q (q.books sinks ((load p).emitted n))) : Handled q p sinks n s' where
  machine := hm.trans h.machine
  calm := h.calm
  going := h.going
  holds := hh h.holds
  early := h.early
  room := he ▸ h.room
  steps := h.steps
  reason := hr.trans h.reason

theorem Handled.stop (h : Handled q p sinks n s) (reason : String)
    (hc : Cut q p n (s.stop reason) n) : Ended q p sinks n n (s.stop reason) where
  cause := .cut (congrArg Machine.cancel h.machine) (h.going n (Nat.le_refl n)) hc
  calm := h.calm
  going k hk := h.going k (Nat.le_of_lt hk)
  holds := h.holds.congr rfl rfl rfl rfl
  early := h.early
  room := h.room
  steps := h.steps

namespace Running

theorem zero (q : Request) (p : Program) (rig : Rig) :
    Running q p rig.sinks 0 { machine := load p, rig := rig } where
  machine := rfl
  calm k hk := absurd hk (Nat.not_lt_zero k)
  going k hk := by
    rw [Nat.le_zero.mp hk]
    rfl
  holds := by
    have hbooks : q.books rig.sinks [] = { sinks := rig.sinks } := by
      unfold Request.books
      cases q.router <;> rfl
    rw [Machine.emitted_zero, hbooks]
    exact ⟨rfl, rfl, rfl, fun _ => rfl⟩
  early := by simp
  room E _ := by
    show (0 : Int) ≤ max 1 E
    omega
  steps M _ hM := hM
  reason := rfl
  free E _ := by
    show (0 : Int) < max 1 E
    omega

variable (h : Running q p sinks n s)
include h

theorem unfinished : s.machine.isFinished = false := by
  rw [h.machine]
  exact h.going n (Nat.le_refl n)

theorem executed : s.machine.executed = n := by
  rw [h.machine, (load p).executed_steps h.going]
  exact Nat.zero_add n

theorem steps_succ : (load p).steps (n + 1) = s.machine.step.1 := by
  rw [Machine.steps_succ_last, h.machine]

theorem steps_lt (hp : Proceeds q s) (M : Int) (hM : q.limits.maxSteps = some M) : (n : Int) < M := by
  have hnone := hp.steps
  rw [h.executed, Limits.stepsReached?, hM] at hnone
  dsimp only at hnone
  split at hnone
  · cases hnone
  · omega

theorem emitted_emit (he : s.machine.step.2 = .emit e) :
    (load p).emitted (n + 1) = (load p).emitted n ++ [e] := by
  rw [h.machine] at he
  rw [Machine.emitted_succ, he]
  rfl

theorem emitted_silent (hs : s.machine.step.2.event? = none) :
    (load p).emitted (n + 1) = (load p).emitted n := by
  rw [h.machine] at hs
  rw [Machine.emitted_succ, hs]
  exact List.append_nil _

theorem calm_succ (ho : ∀ o, s.machine.step.2 ≠ .overflow o) : (load p).Calm (n + 1) :=
  h.calm.succ (h.machine ▸ ho)

theorem holds_silent (hs : s.machine.step.2.event? = none) :
    s.stepped.Holds q (q.books sinks ((load p).emitted (n + 1))) := by
  rw [h.emitted_silent hs]
  exact h.holds.congr rfl rfl rfl rfl

/-- A step after which the render has something to do, or may go on. -/
theorem succ (hp : Proceeds q s) (hm : s'.machine = s.machine.step.1) (hr : s'.reason = s.reason)
    (ho : ∀ o, s.machine.step.2 ≠ .overflow o) (hh : ∀ t, s.machine.step.2 ≠ .halt t)
    (hf : ∀ f, s.machine.step.2 ≠ .fault f)
    (hholds : s'.Holds q (q.books sinks ((load p).emitted (n + 1))))
    (hearly : ∀ e ∈ (load p).emitted (n + 1), q.limits.timeReason? e.time e.tick = none)
    (hsize : s'.events.size ≤ s.events.size + 1) : Handled q p sinks (n + 1) s' where
  machine := by rw [hm, h.steps_succ]
  calm := h.calm_succ ho
  going k hk := by
    rcases Nat.le_succ_iff.mp hk with hk | rfl
    · exact h.going k hk
    · rw [h.steps_succ]
      exact s.machine.stepped.goes_on hh hf
  holds := hholds
  early := hearly
  room E hE := by
    have hfree := h.free E hE
    omega
  steps M hM _ := Int.add_one_le_of_lt (h.steps_lt hp M hM)
  reason := hr.trans h.reason

/-- A step that leaves nothing to collect. -/
theorem silent (hp : Proceeds q s)
    (hs : (∃ t, s.machine.step.2 = .proceed t) ∨ ∃ t k, s.machine.step.2 = .suspend t k) :
    Running q p sinks (n + 1) s.stepped := by
  have hevent : s.machine.step.2.event? = none := by
    rcases hs with ⟨t, hs⟩ | ⟨t, k, hs⟩ <;> rw [hs] <;> rfl
  refine ⟨h.succ hp rfl rfl ?_ ?_ ?_ (h.holds_silent hevent) ?_ (Nat.le_succ _), h.free⟩
  iterate 3 rcases hs with ⟨t, hs⟩ | ⟨t, k, hs⟩ <;> simp [hs]
  rw [h.emitted_silent hevent]
  exact h.early

/-- An event is collected. -/
theorem emit (hp : Proceeds q s) (he : s.machine.step.2 = .emit e)
    (ht : q.limits.timeReason? e.time e.tick = none) :
    Handled q p sinks (n + 1) (s.stepped.collect q.router e) := by
  have hemitted := h.emitted_emit he
  refine h.succ hp (State.collect_machine _ _ e).1 (State.collect_machine _ _ e).2
    (by simp [he]) (by simp [he]) (by simp [he]) ?_ (fun e' he' => ?_) (State.collect_size _ _ e)
  · have hholds : s.stepped.Holds q (q.books sinks ((load p).emitted n)) :=
      h.holds.congr rfl rfl rfl rfl
    rw [hemitted, Request.books_concat]
    exact hholds.collect e
  · rw [hemitted, List.mem_append, List.mem_singleton] at he'
    rcases he' with he' | rfl
    · exact h.early e' he'
    · exact ht

/-- The program has ended, or has failed. -/
theorem last (hp : Proceeds q s)
    (hs : (∃ t, s.machine.step.2 = .halt t) ∨ ∃ f, s.machine.step.2 = .fault f) :
    Ended q p sinks (n + 1) (n + 1) s.stepped := by
  have hevent : s.machine.step.2.event? = none := by
    rcases hs with ⟨t, hs⟩ | ⟨f, hs⟩ <;> rw [hs] <;> rfl
  have hcalm : ∀ o, s.machine.step.2 ≠ .overflow o := by
    rcases hs with ⟨t, hs⟩ | ⟨f, hs⟩ <;> simp [hs]
  have hfinished : ((load p).steps (n + 1)).isFinished = true := by
    rw [h.steps_succ]
    exact s.machine.stepped.last hs
  exact {
    cause := .done h.steps_succ.symm hfinished h.reason
    calm := h.calm_succ hcalm
    going := fun k hk => h.going k (Nat.le_of_lt_succ hk)
    holds := h.holds_silent hevent
    early := by
      rw [h.emitted_silent hevent]
      exact h.early
    room := h.room
    steps := fun M hM _ => Int.add_one_le_of_lt (h.steps_lt hp M hM) }

/-- An event that is past a limit on time is left. -/
theorem late (hp : Proceeds q s) (he : s.machine.step.2 = .emit e)
    (ht : q.limits.timeReason? e.time e.tick ≠ none) (reason : String) :
    Ended q p sinks n (n + 1) (s.stepped.stop reason) where
  cause := by
    refine .cut ?_ ?_ (.late (h.machine ▸ he) ht) <;> rw [h.steps_succ]
    · rfl
    · exact s.machine.stepped.goes_on (by simp [he]) (by simp [he])
  calm := h.calm_succ (by simp [he])
  going k hk := h.going k (Nat.le_of_lt_succ hk)
  holds := h.holds.congr rfl rfl rfl rfl
  early := h.early
  room := h.room
  steps M hM _ := Int.add_one_le_of_lt (h.steps_lt hp M hM)

/-- The step lemma. -/
theorem turn_stands : (turn q s).2.Stands q p sinks (n + 1) (turn q s).1 := by
  have hturned := turned q s
  generalize turn q s = t at hturned ⊢
  obtain ⟨s', v⟩ := t
  dsimp only at hturned ⊢
  cases hturned with
  | cancelled hc => exact ⟨n, n, (h.congr s.checked rfl rfl rfl (·.congr rfl rfl rfl rfl)).stop _ (.cancelled hc)⟩
  | @outOfSteps limit hsteps =>
    unfold Limits.stepsReached? at hsteps
    rw [h.executed] at hsteps
    refine ⟨n, n, (h.congr (s.warned limit) rfl rfl rfl (·.congr rfl rfl rfl rfl)).stop _ ?_⟩
    split at hsteps
    · rename_i M hM
      split at hsteps
      · rename_i hle
        exact .steps hM hle
      · cases hsteps
    · cases hsteps
  | late hp he ht => exact ⟨n, n + 1, h.late hp he (by simp [ht]) _⟩
  | full hp he ht hevents =>
    refine .inr ⟨n + 1, (h.emit hp he ht).stop _ ?_⟩
    unfold Limits.eventsReason? at hevents
    split at hevents
    · rename_i E hE
      split at hevents
      · rename_i hle
        exact .events hE hle
      · cases hevents
    · cases hevents
  | collected hp he ht hevents =>
    refine .inl ⟨h.emit hp he ht, fun E hE => ?_⟩
    unfold Limits.eventsReason? at hevents
    rw [hE] at hevents
    dsimp only at hevents
    split at hevents
    · cases hevents
    · omega
  | timeOver hp hs ht =>
    have hnext := h.silent hp (.inr ⟨_, _, hs⟩)
    refine .inr ⟨n + 1, hnext.stop _ (.time ?_)⟩
    rw [← hnext.machine, ht]
    exact Option.some_ne_none _
  | waited hp hs => exact .inl (h.silent hp (.inr ⟨_, _, hs⟩))
  | moved hp hs => exact .inl (h.silent hp (.inl ⟨_, hs⟩))
  | halted hp hs => exact .inr ⟨n + 1, h.last hp (.inl ⟨_, hs⟩)⟩
  | faulted hp hs => exact ⟨n + 1, n + 1, h.last hp (.inr ⟨_, hs⟩)⟩
  | overflowed hp hs =>
    exact ⟨n, h.machine ▸ hs, h.calm, h.holds.congr rfl rfl rfl rfl, h.room,
      fun M hM => h.steps_lt hp M hM⟩

/-- The run lemma. -/
theorem turns_stands (fuel : Nat) :
    (turns q fuel s).2.Stands q p sinks (n + fuel) (turns q fuel s).1 := by
  induction fuel generalizing n s with
  | zero => exact .inl h
  | succ fuel ih =>
    have hturn := h.turn_stands
    unfold turns
    rw [h.unfinished, if_neg Bool.false_ne_true]
    rcases ht : turn q s with ⟨t, v⟩
    rw [ht] at hturn
    cases v with
    | more =>
      rw [Nat.add_comm fuel, ← Nat.add_assoc]
      rcases hturn with hrunning | ⟨k, hended⟩
      · exact ih hrunning
      · cases fuel with
        | zero => exact .inr ⟨k, hended⟩
        | succ fuel =>
          dsimp only
          unfold turns
          rw [if_pos hended.finished]
          exact ⟨k, n + 1, hended⟩
    | «over» => exact hturn
    | overflow o => exact hturn

end Running

/-! ## Renders -/

variable {rig rig' : Rig} {patience : Nat} {rendering : Rendering} {M : Int}

theorem ended_of_render (h : render p q rig patience = (rig', .ok rendering)) :
    ∃ n N s, Ended q p rig.sinks n N s ∧ s.finish q p = (rig', rendering) := by
  have hstands := (Running.zero q p { rig with journal := Machine.reportLoad rig.journal }).turns_stands
    (turnBound q.limits patience)
  unfold render at h
  split at h
  · cases h
  · dsimp only at h
    split at h
    · cases h
    · cases h
    · rename_i s hs
      rw [hs] at hstands
      obtain ⟨n, N, hended⟩ := hstands
      cases h
      exact ⟨n, N, s, hended, rfl⟩

theorem strained_of_render {o : Overflow}
    (h : render p q rig patience = (rig', .error (.overflow o))) :
    ∃ n s, Strained q p rig.sinks n o s ∧ s.rig = rig' := by
  have hstands := (Running.zero q p { rig with journal := Machine.reportLoad rig.journal }).turns_stands
    (turnBound q.limits patience)
  unfold render at h
  split at h
  · cases h
  · dsimp only at h
    split at h
    · rename_i s o' hs
      rw [hs] at hstands
      obtain ⟨n, hstrained⟩ := hstands
      cases h
      exact ⟨n, s, hstrained, rfl⟩
    · cases h
    · cases h

theorem Strained.sinks_eq {r : Router} {o : Overflow} (h : Strained q p sinks n o s)
    (hq : q.router = some r) : s.rig.sinks = (r.books sinks ((load p).emitted n)).sinks := by
  rw [h.holds.sinks, Request.books_router hq]

/-- A render with a limit on steps ends, unless its machine overflows. -/
theorem render_total (hM : q.limits.maxSteps = some M) (h0 : 0 ≤ M) (p : Program) (rig : Rig)
    (patience : Nat) :
    (∃ rig' rendering, render p q rig patience = (rig', .ok rendering)) ∨
      ∃ rig' o, render p q rig patience = (rig', .error (.overflow o)) := by
  have hstands := (Running.zero q p { rig with journal := Machine.reportLoad rig.journal }).turns_stands
    (turnBound q.limits patience)
  have hlimited : q.limits.isUnlimited = false := by
    unfold Limits.isUnlimited
    rw [hM, Option.isNone_some, Bool.and_false]
  have hbound : turnBound q.limits patience = M.toNat + 2 := by
    unfold turnBound
    rw [hM]
  unfold render
  rw [hlimited, if_neg Bool.false_ne_true]
  dsimp only
  split
  · rename_i s o hs
    exact .inr ⟨s.rig, o, rfl⟩
  · rename_i s hs
    rw [hs, hbound] at hstands
    have hpast : ((0 + (M.toNat + 2) : Nat) : Int) ≤ M := by
      rcases hstands with hrunning | ⟨k, hended⟩
      · exact hrunning.steps M hM h0
      · exact hended.steps M hM h0
    omega
  · rename_i s hs
    exact .inl ⟨(s.finish q p).1, (s.finish q p).2, rfl⟩

section
variable {r : Router} (h : Ended q p sinks n N s) (hq : q.router = some r)
include h hq

theorem Ended.books : s.Holds q ((⟨p, r, sinks⟩ : Outset).books n) := by
  have hholds := h.holds
  rwa [Request.books_router hq] at hholds

theorem Ended.finish : (s.finish q p).1.sinks = (⟨p, r, sinks⟩ : Outset).finalSinks n s.machine ∧
    (s.finish q p).2.events = ((⟨p, r, sinks⟩ : Outset).books n).delivered ∧
    (s.finish q p).2.result = (⟨p, r, sinks⟩ : Outset).result n s.machine s.reason := by
  have hbooks := h.books hq
  have hsounding := hbooks.sounding (by simp [hq])
  refine ⟨?_, hbooks.events, ?_⟩
  · unfold State.finish
    rw [hq]
    dsimp only
    by_cases hm : s.machine.state = .halted
    · rw [if_pos hm, Outset.finalSinks_halted hm]
      exact hbooks.sinks
    · rw [if_neg hm, hsounding]
      exact Outset.release_finalSinks hbooks.sinks hm
  · rw [Outset.result, ← hbooks.events, ← hbooks.errors]
    rfl

end

/-- **A render through a router ends as it should, whatever stopped it.** -/
theorem render_ends {r : Router} (hq : q.router = some r)
    (h : render p q rig patience = (rig', .ok rendering)) :
    ∃ n m, (m = (⟨p, r, rig.sinks⟩ : Outset).machine n ∨
        m = ((⟨p, r, rig.sinks⟩ : Outset).machine n).cancel ∨
        m = ((⟨p, r, rig.sinks⟩ : Outset).machine (n + 1)).cancel) ∧
      rig'.sinks = (⟨p, r, rig.sinks⟩ : Outset).finalSinks n m ∧
      rendering.events = ((⟨p, r, rig.sinks⟩ : Outset).books n).delivered ∧
      ∃ reason, rendering.result = (⟨p, r, rig.sinks⟩ : Outset).result n m reason := by
  obtain ⟨n, N, s, hended, hfinish⟩ := ended_of_render h
  obtain ⟨hsinks, hevents, hresult⟩ := hended.finish hq
  rw [hfinish] at hsinks hevents hresult
  refine ⟨n, s.machine, ?_, hsinks, hevents, s.reason, hresult⟩
  cases hended.cause with
  | done hm => exact .inl hm
  | cut hm _ hcut =>
    cases hcut with
    | late => exact .inr (.inr hm)
    | _ => exact .inr (.inl hm)

/-! ## A limit on steps alone -/

def upTo (r : Router) (limit : Int) : Request :=
  { limits := { maxSeconds := none, maxSteps := some limit }, router := some r }

theorem le_of_finished {m : Machine} (hlast : (m.steps n).isFinished = true)
    (hgoing : ∀ k < N, (m.steps k).isFinished = false) : N ≤ n := by
  by_contra hlt
  rw [hgoing n (by omega)] at hlast
  cases hlast

theorem Ended.of_upTo {r : Router} {limit : Int} {k : Nat}
    (h : Ended (upTo r limit) p sinks k N s)
    (hgoing : ∀ i < n, ((load p).steps i).isFinished = false)
    (hlast : ((load p).steps n).isFinished = true)
    (hlimit : (((load p).steps n).executed : Int) < limit) :
    k = n ∧ s.machine = (load p).steps n ∧ s.reason = "" := by
  cases h.cause with
  | done hm hf hreason =>
    have hN : N = n :=
      Nat.le_antisymm (le_of_finished hlast h.going) (le_of_finished hf hgoing)
    exact ⟨hN, hN ▸ hm, hreason⟩
  | cut _ hf hcut =>
    have hall : ∀ i ≤ N, ((load p).steps i).isFinished = false := by
      intro i hi
      rcases Nat.lt_or_eq_of_le hi with hlt | rfl
      · exact h.going i hlt
      · exact hf
    have hN : N + 1 ≤ n := le_of_finished hlast fun i hi => hall i (Nat.le_of_lt_succ hi)
    have hexecuted := (load p).executed_steps hall
    have hmono := (load p).executed_mono (Nat.le_of_succ_le hN)
    have hload : (load p).executed = 0 := rfl
    cases hcut with
    | cancelled hc => cases hc
    | steps hM hle =>
      cases hM
      omega
    | time ht => exact absurd rfl ht
    | events hE => cases hE
    | late _ ht => exact absurd rfl ht

/-- **A render with room for it plays a program to its end.** -/
theorem render_upTo {o : Outset} (hcalm : (load o.program).Calm n)
    (hgoing : ∀ k < n, (o.machine k).isFinished = false) (hlast : (o.machine n).isFinished = true)
    {limit : Int} (hlimit : ((o.machine n).executed : Int) < limit) (hrig : rig.sinks = o.sinks)
    (patience : Nat) :
    ∃ rig' rendering, render o.program (upTo o.router limit) rig patience = (rig', .ok rendering) ∧
      rig'.sinks = o.finalSinks n (o.machine n) ∧
      rendering.result = o.result n (o.machine n) "" := by
  obtain ⟨program, router, sinks⟩ := o
  subst hrig
  rcases render_total (q := upTo router limit) rfl (by omega) program rig patience with
    ⟨rig', rendering, hrender⟩ | ⟨rig', f, hrender⟩
  · obtain ⟨k, N, s, hended, hfinish⟩ := ended_of_render hrender
    obtain ⟨hsinks, -, hresult⟩ := hended.finish (r := router) rfl
    obtain ⟨rfl, hm, hreason⟩ := hended.of_upTo hgoing hlast hlimit
    rw [hfinish, hm] at hsinks hresult
    rw [hreason] at hresult
    exact ⟨rig', rendering, hrender, hsinks, hresult⟩
  · obtain ⟨k, s, hstrained, -⟩ := strained_of_render hrender
    exact absurd hstrained.overflow (hcalm.of_finished hlast (k + 1) k (Nat.lt_succ_self k) f)

end

end Ostinato.Render
