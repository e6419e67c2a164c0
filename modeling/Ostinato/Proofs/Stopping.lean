import Ostinato.Proofs.Performing

/-!
# Stopping

A live run looks for a request to stop at one place only, before each instruction. So a request that
is made while an event is dispatched or listeners are called comes to the same as one that is made
right afterwards (`raise_perform`, `raise_callUntilFailure`, `raise_callAll`), and wherever a run
stands that was asked to stop (`Reaches`), it ends there, with the counts of its machine and nothing
but releases (`playFrom_stops`). As for how long it may take until others can ask, a run never
executes more than its interval of instructions from one scheduling point to the next
(`Reaches.running`).
-/

namespace Ostinato.Live

/-- The result of a run that was cancelled where its machine stood. -/
structure CancelledAt (m : Machine) (r : RunResult) : Prop where
  state : r.state = .cancelled
  executed : r.executed = m.executed
  ticks : r.ticks = m.clock.ticks
  jumpCounts : r.jumpCounts = m.counters

/-- What becomes of an account when its run stops where it is, with a result. -/
structure Stops (router : Router) (a b : Account) (r : RunResult) : Prop where
  /-- No further instruction is executed. -/
  machine : b.machine = a.machine.cancel
  /-- Nothing is dispatched but a note-off for each note that sounds. -/
  sinks : b.sinks = (router.books a.sinks (a.sounding.notes.map
    (Sounding.noteOff a.machine.clock.now a.machine.clock.ticks))).sinks
  result : CancelledAt a.machine r

/-- A listener that fails at none of its calls. -/
def Listener.IsCourteous (l : Listener) : Prop := ∀ call, (l.reaction call).failure? = none

theorem Reaction.askAt_failure? (n call : Nat) : (askAt n call).failure? = none := by
  unfold askAt
  split <;> rfl

def firstFailure (h : Heard) : List Listener → Option String
  | [] => none
  | l :: rest => (l.next h).failure?.or (firstFailure (h.add l.id) rest)

theorem firstFailure_courteous {ls : List Listener} (hls : ∀ l ∈ ls, l.IsCourteous) (h : Heard) :
    firstFailure h ls = none := by
  induction ls generalizing h with
  | nil => rfl
  | cons l rest ih =>
    obtain ⟨hl, hrest⟩ := List.forall_mem_cons.mp hls
    rw [firstFailure, ih hrest, Option.or_none]
    exact hl _

namespace Act

def raise (a : Act) : Act := { a with cancelled := true }

section
variable {a : Act} {part : Part}

theorem raise_eq (h : a.cancelled = true) : a.raise = a := by
  rw [raise, ← h]

/-! ## Requests to stop in the midst of calls -/

theorem raise_call (a : Act) (l : Listener) (n : Notice) :
    a.raise.call l n = ((a.call l n).1.raise, (a.call l n).2) := by
  unfold call
  dsimp only [raise]
  split <;> rfl

theorem raise_callUntilFailure (a : Act) (n : Notice) (ls : List Listener) :
    a.raise.callUntilFailure n ls =
      ((a.callUntilFailure n ls).1.raise, (a.callUntilFailure n ls).2) := by
  induction ls generalizing a with
  | nil => rfl
  | cons l rest ih =>
    rw [callUntilFailure, raise_call, callUntilFailure]
    rcases a.call l n with ⟨b, _ | message⟩
    · exact ih b
    · rfl

theorem raise_callAll (a : Act) (n : Notice) (ls : List Listener) :
    a.raise.callAll n ls = ((a.callAll n ls).1.raise, (a.callAll n ls).2) := by
  induction ls generalizing a with
  | nil => rfl
  | cons l rest ih =>
    simp only [callAll, raise_call, ih]

theorem raise_report (a : Act) (part : Part) (n : Notice) :
    a.raise.report part n = ((a.report part n).1.raise, (a.report part n).2) := by
  rw [report, tell, raise_callUntilFailure, report, tell]
  rcases a.callUntilFailure n (part.audience n false) with ⟨b, _ | message⟩ <;> rfl

/-- An event is dispatched and reported alike whether or not the run was asked to stop meanwhile. -/
theorem raise_perform (a : Act) (part : Part) (e : Event) :
    a.raise.perform part e = ((a.perform part e).1.raise, (a.perform part e).2) := by
  have hrig : a.raise.rig = a.rig := rfl
  unfold perform
  rw [hrig]
  rcases Run.deliver part.router a.rig e with ⟨rig, _ | f⟩
  · exact raise_report
      { a with rig := rig, emitted := a.emitted + 1, sounding := a.sounding.track e } part (.note e)
  · exact raise_report { a with rig := rig, errors := a.errors.push f } part (.outputError f)

theorem raise_enter (a : Act) (part : Part) :
    a.raise.enter part = ((a.enter part).1.raise, (a.enter part).2) := by
  unfold enter
  exact raise_callUntilFailure
    { a with machine := a.machine.reset, rig := _, sounding := {}, emitted := 0, errors := #[] } _ _

/-! ## Listeners that fail -/

theorem call_heard (a : Act) (l : Listener) (n : Notice) :
    (a.call l n).1.heard = a.heard.add l.id := by
  unfold call
  dsimp only
  split <;> rfl

theorem call_failure (a : Act) (l : Listener) (n : Notice) :
    (a.call l n).2 = (l.next a.heard).failure? := by
  unfold call
  dsimp only
  split <;> (rename_i hreaction; rw [hreaction]; rfl)

/-- What listeners have to say of a notice is a matter of how often each was called before. -/
theorem callUntilFailure_failure (a : Act) (n : Notice) (ls : List Listener) :
    (a.callUntilFailure n ls).2 = firstFailure a.heard ls := by
  induction ls generalizing a with
  | nil => rfl
  | cons l rest ih =>
    have hheard := call_heard a l n
    have hfails := call_failure a l n
    rw [callUntilFailure, firstFailure, ← hheard, ← hfails]
    rcases a.call l n with ⟨b, _ | message⟩
    · exact ih b
    · rfl

/-- It makes no difference to that if all of them are called. -/
theorem callAll_failure (a : Act) (n : Notice) (ls : List Listener) :
    (a.callAll n ls).2 = firstFailure a.heard ls := by
  induction ls generalizing a with
  | nil => rfl
  | cons l rest ih =>
    show (a.call l n).2.or ((a.call l n).1.callAll n rest).2 = firstFailure a.heard (l :: rest)
    rw [ih, call_heard, call_failure, firstFailure]

section
variable (hpart : ∀ l ∈ part.listeners, l.IsCourteous) (a : Act) (n : Notice)
include hpart

theorem tell_none : (a.tell part n).2 = none :=
  (callUntilFailure_failure a n _).trans
    (firstFailure_courteous (fun l hl => hpart l (List.mem_of_mem_filter hl)) _)

theorem tellDeferred_none : (a.tellDeferred part n).2 = none :=
  (callAll_failure a n _).trans
    (firstFailure_courteous (fun l hl => hpart l (List.mem_of_mem_filter hl)) _)

end

/-! ## One instruction -/

theorem report_account (a : Act) (part : Part) (n : Notice) :
    (a.report part n).1.account = a.account := by
  have htell := a.tell_account part n
  unfold report
  split
  · rename_i h
    rw [h] at htell
    exact htell
  · rename_i h
    rw [h] at htell
    exact htell

theorem perform_machine (a : Act) (part : Part) (e : Event) :
    (a.perform part e).1.machine = a.machine := by
  obtain ⟨b, n, hb, haccount⟩ := a.perform_report part e
  have hmachine := congrArg Account.machine ((b.report_account part n).trans haccount)
  rw [hb]
  refine hmachine.trans ?_
  unfold Account.deliver
  split <;> rfl

theorem turn_cancelled (h : a.cancelled = true) (part : Part) : a.turn part = (a.cancel, .over) :=
  if_pos h

def Turn.GoesOn : Turn → Prop
  | .more | .wait _ | .listen _ => True
  | .over | .failed _ => False

theorem turn_machine (h : a.cancelled = false) (part : Part) :
    (a.turn part).1.machine = a.machine.step.1 := by
  unfold turn
  rw [h, if_neg Bool.false_ne_true]
  dsimp only
  split
  · exact perform_machine _ part _
  all_goals rfl

/-- A run goes on only if it was not asked to stop, and it has executed an instruction then. -/
theorem turn_goesOn {b : Act} {t : Turn} (ht : a.turn part = (b, t)) (hgo : t.GoesOn) :
    a.cancelled = false ∧ b.machine.isFinished = false ∧
      b.machine.executed = a.machine.executed + 1 := by
  have hc : a.cancelled = false := by
    rw [← Bool.not_eq_true]
    intro hc
    rw [turn_cancelled hc] at ht
    cases ht
    exact hgo
  have hm : b.machine = a.machine.step.1 := by
    rw [← turn_machine hc part, ht]
  unfold turn at ht
  rw [hc, if_neg Bool.false_ne_true] at ht
  dsimp only at ht
  have hfinished : b.machine.isFinished = false := by
    rw [hm]
    apply a.machine.stepped.goes_on
    · intro t' he
      rw [he] at ht
      cases ht
      exact hgo
    · intro f he
      rw [he] at ht
      cases ht
      exact hgo
  rw [hm] at hfinished ⊢
  exact ⟨hc, hfinished, a.machine.stepped.executed_eq hfinished⟩

theorem turn_executed_le (a : Act) (part : Part) :
    (a.turn part).1.machine.executed ≤ a.machine.executed + 1 := by
  cases hc : a.cancelled with
  | true =>
    rw [turn_cancelled hc]
    exact Nat.le_succ_of_le (Nat.le_of_eq a.machine.cancel_executed)
  | false =>
    rw [turn_machine hc]
    exact a.machine.stepped.executed_le_succ

/-- A stretch executes no more instructions than it may, and what is left when deferred listeners are
to be told has not been executed. -/
theorem stretch_executed_le (part : Part) (left : Nat) (a : Act) :
    (a.stretch part left).1.machine.executed ≤ a.machine.executed + left ∧
      ∀ n left', (a.stretch part left).2 = .listen n left' →
        (a.stretch part left).1.machine.executed + left' ≤ a.machine.executed + left := by
  induction left generalizing a with
  | zero => exact ⟨Nat.le_refl _, fun n left' he => by cases he⟩
  | succ left ih =>
    have hturn := a.turn_executed_le part
    rw [stretch]
    rcases ht : a.turn part with ⟨b, t⟩
    rw [ht] at hturn
    dsimp only at hturn
    cases t with
    | more =>
      obtain ⟨hle, hleft⟩ := ih b
      refine ⟨by dsimp only; omega, fun n left' he => ?_⟩
      have hle' := hleft n left' he
      dsimp only
      omega
    | listen n =>
      refine ⟨by dsimp only; omega, fun n' left' he => ?_⟩
      cases he
      dsimp only
      omega
    | _ => exact ⟨by dsimp only; omega, fun n' left' he => by cases he⟩

/-! ## Ends -/

theorem conclude_account (a : Act) (part : Part) :
    (a.conclude part).1.account = (a.leave part).account := by
  unfold conclude
  exact tell_account _ part _

theorem conclude_result (a : Act) (part : Part) :
    (a.conclude part).2.1 = Run.result a.machine a.emitted a.errors.toList "" := by
  unfold conclude leave
  dsimp only
  split <;> rfl

theorem conclude_stops (h : a.machine.isFinished = false) (part : Part) :
    Stops part.router a.account (a.cancel.conclude part).1.account
      (a.cancel.conclude part).2.1 := by
  have hm : a.cancel.machine = { a.machine with state := .cancelled } := by
    show a.machine.cancel = _
    rw [Machine.cancel, if_neg (by rw [h]; exact Bool.false_ne_true)]
  have hleave : (a.cancel.leave part).rig.sinks =
      (Run.release part.router a.cancel.rig a.sounding a.cancel.machine).sinks := by
    unfold leave
    have hstate : a.cancel.machine.state ≠ .halted := by
      rw [hm]
      exact RunState.noConfusion
    rw [if_neg hstate]
    rfl
  rw [conclude_account, conclude_result]
  refine ⟨leave_machine, ?_, ?_⟩
  · have hsinks : a.cancel.rig.sinks = ({ sinks := a.rig.sinks } : Books).sinks := rfl
    refine hleave.trans ?_
    rw [release_books hsinks, hm]
    rfl
  · rw [hm]
    exact ⟨rfl, rfl, rfl, rfl⟩

end

end Act

section
variable {part : Part} (hpart : ∀ l ∈ part.listeners, l.IsCourteous)
include hpart

theorem finish_courteous (a : Act) : ∃ b : Act,
    finish part a = (b, .ok (a.conclude part).2.1) ∧ b.account = (a.conclude part).1.account := by
  have htold : (a.conclude part).2.2 = none := Act.tell_none hpart _ _
  unfold finish
  generalize a.conclude part = x at htold ⊢
  obtain ⟨c, r, failure⟩ := x
  cases htold
  have hdeferred := Act.tellDeferred_none hpart c (.stop r)
  have hkept := c.tellDeferred_account part (.stop r)
  dsimp only [Act.andDeferred]
  generalize c.tellDeferred part (.stop r) = y at hdeferred hkept ⊢
  obtain ⟨d, failure⟩ := y
  cases hdeferred
  exact ⟨d, rfl, hkept⟩

end

/-! ## Where a run can stand -/

/-- Where a run by itself can stand before it looks for a request to stop: it has given way `pauses`
times, it had executed `last` instructions at its last scheduling point, and it may execute `left`
more before it yields. -/
inductive Reaches (part : Part) (cue : Cue) (a₀ : Act) : Nat → Nat → Nat → Act → Prop where
  | start {a : Act} (h : Act.andDeferred part .start (a₀.enter part) = (a, none)) :
    Reaches part cue a₀ 0 0 part.yieldInterval a
  | more {pauses last left : Nat} {a b : Act} (h : Reaches part cue a₀ pauses last (left + 1) a)
    (ht : a.turn part = (b, .more)) : Reaches part cue a₀ pauses last left b
  | told {pauses last left : Nat} {a b c : Act} {n : Notice}
    (h : Reaches part cue a₀ pauses last (left + 1) a) (ht : a.turn part = (b, .listen n))
    (hd : b.tellDeferred part n = (c, none)) : Reaches part cue a₀ (pauses + 1) last left c
  | waited {pauses last left : Nat} {a b : Act} {due : Binary64}
    (h : Reaches part cue a₀ pauses last (left + 1) a) (ht : a.turn part = (b, .wait due)) :
    Reaches part cue a₀ (pauses + 1) b.machine.executed part.yieldInterval
      { b with cancelled := b.cancelled || cue b (.wait due) }
  | yielded {pauses last : Nat} {a : Act} (h : Reaches part cue a₀ pauses last 0 a) :
    Reaches part cue a₀ (pauses + 1) a.machine.executed part.yieldInterval
      { a with cancelled := a.cancelled || cue a .yield }

/-- A run by itself that stood at `a` has stopped there, with a result. -/
def StopsAt (part : Part) (a : Act) (x : Act × Option Ending) : Prop :=
  ∃ b r, x = (b, some (.ok r)) ∧ Stops part.router a.account b.account r

/-- A run is about to yield, to wait or to end. -/
def AtPoint (part : Part) (a : Act) : Nat → Prop
  | 0 => True
  | _ + 1 => (∃ due, (a.turn part).2 = .wait due) ∨ (a.turn part).2 = .over ∨
    ∃ f, (a.turn part).2 = .failed f

section
variable {part : Part} {cue : Cue} {a₀ a b c : Act} {pauses last left fuel : Nat}

theorem playFrom_more (ht : a.turn part = (b, .more)) :
    playFrom part cue (fuel + 1) (left + 1) a = playFrom part cue (fuel + 1) left b := by
  rw [playFrom, playFrom, Act.stretch, ht]

theorem playFrom_listen {n : Notice} (ht : a.turn part = (b, .listen n))
    (hd : b.tellDeferred part n = (c, none)) :
    playFrom part cue (fuel + 1) (left + 1) a = playFrom part cue fuel left c := by
  rw [playFrom, Act.stretch, ht]
  dsimp only
  rw [hd]

theorem playFrom_wait {due : Binary64} (ht : a.turn part = (b, .wait due)) :
    playFrom part cue (fuel + 1) (left + 1) a = playFrom part cue fuel part.yieldInterval
      { b with cancelled := b.cancelled || cue b (.wait due) } := by
  rw [playFrom, Act.stretch, ht]

theorem playFrom_yield : playFrom part cue (fuel + 1) 0 a =
    playFrom part cue fuel part.yieldInterval
      { a with cancelled := a.cancelled || cue a .yield } := by
  rw [playFrom, Act.stretch]

theorem Reaches.play (h : Reaches part cue a₀ pauses last left a) (fuel : Nat) :
    play part cue (pauses + fuel + 1) a₀ = playFrom part cue (fuel + 1) left a := by
  induction h generalizing fuel with
  | start h =>
    rw [Live.play, h, Nat.zero_add]
  | more _ ht ih => rw [ih, playFrom_more ht]
  | @told pauses _ _ _ _ _ _ _ ht hd ih =>
    rw [show pauses + 1 + fuel + 1 = pauses + (fuel + 1) + 1 by omega, ih, playFrom_listen ht hd]
  | @waited pauses _ _ _ _ _ _ ht ih =>
    rw [show pauses + 1 + fuel + 1 = pauses + (fuel + 1) + 1 by omega, ih, playFrom_wait ht]
  | @yielded pauses _ _ _ ih =>
    rw [show pauses + 1 + fuel + 1 = pauses + (fuel + 1) + 1 by omega, ih, playFrom_yield]

/-- Wherever a run stands its machine has not finished, and what it has executed since its last
scheduling point makes up its interval with what is left. -/
theorem Reaches.running (h : Reaches part cue a₀ pauses last left a) :
    a.machine.isFinished = false ∧ a.machine.executed + left = last + part.yieldInterval := by
  induction h with
  | @start a h =>
    have hentered := a₀.enter_account part (o := ⟨a₀.machine.program, part.router, a₀.rig.sinks⟩)
      rfl rfl
    have htold := (a₀.enter part).1.andDeferred_account part .start (a₀.enter part).2
    rw [h, hentered] at htold
    have hm : a.machine = Machine.load a₀.machine.program := congrArg Account.machine htold
    rw [hm]
    exact ⟨rfl, rfl⟩
  | more _ ht ih =>
    obtain ⟨-, hfinished, hexecuted⟩ := Act.turn_goesOn ht trivial
    exact ⟨hfinished, by omega⟩
  | @told _ _ _ _ b c n _ ht hd ih =>
    obtain ⟨-, hfinished, hexecuted⟩ := Act.turn_goesOn ht trivial
    have hm : c.machine = b.machine := by
      have htold := b.tellDeferred_account part n
      rw [hd] at htold
      exact congrArg Account.machine htold
    rw [hm]
    exact ⟨hfinished, by omega⟩
  | waited _ ht _ => exact ⟨(Act.turn_goesOn ht trivial).2.1, rfl⟩
  | yielded _ ih => exact ⟨ih.1, rfl⟩

variable (hpart : ∀ l ∈ part.listeners, l.IsCourteous)
include hpart

/-- A run begins with its first instruction before it. One that was asked to stop before it began
still is. -/
theorem reaches_start (cue : Cue) (a₀ : Act) : ∃ a, Reaches part cue a₀ 0 0 part.yieldInterval a ∧
    (a₀.cancelled = true → a.cancelled = true) := by
  have hentered : (a₀.enter part).2 = none := Act.tell_none hpart _ _
  have hdeferred := Act.tellDeferred_none hpart (a₀.enter part).1 .start
  refine ⟨((a₀.enter part).1.tellDeferred part .start).1, .start ?_, fun hc => ?_⟩
  · rw [← Prod.eta (a₀.enter part), hentered]
    show (a₀.enter part).1.tellDeferred part .start = _
    rw [← hdeferred]
  · rw [← Act.raise_eq hc, Act.raise_enter]
    dsimp only
    rw [Act.tellDeferred, Act.raise_callAll]
    rfl

/-- A run that was asked to stop stops where it is. -/
theorem playFrom_stops (hinterval : 1 ≤ part.yieldInterval) (h : a.machine.isFinished = false)
    (hc : a.cancelled = true) (cue : Cue) (fuel left : Nat) :
    StopsAt part a (playFrom part cue (fuel + 2) left a) := by
  have hstops (fuel left : Nat) :
      StopsAt part a (playFrom part cue (fuel + 1) (left + 1) a) := by
    obtain ⟨b, hb, haccount⟩ := finish_courteous hpart a.cancel
    refine ⟨b, _, ?_, haccount ▸ a.conclude_stops h part⟩
    rw [playFrom, Act.stretch, Act.turn_cancelled hc]
    dsimp only
    rw [hb]
    rfl
  cases left with
  | succ left => exact hstops (fuel + 1) left
  | zero =>
    obtain ⟨left, hleft⟩ : ∃ left, part.yieldInterval = left + 1 :=
      ⟨part.yieldInterval - 1, by omega⟩
    have hsame : { a with cancelled := a.cancelled || cue a .yield } = a := by
      rw [hc, Bool.true_or]
      exact Act.raise_eq hc
    rw [playFrom_yield, hsame, hleft]
    exact hstops fuel left

/-- With no scheduling point in between, a run comes to one or to its end. -/
theorem Reaches.next (h : Reaches part cue a₀ pauses last left a) : ∃ pauses' left' b,
    Reaches part cue a₀ pauses' last left' b ∧ left' ≤ left ∧ AtPoint part b left' := by
  induction left generalizing pauses a with
  | zero => exact ⟨pauses, 0, a, h, Nat.le_refl 0, trivial⟩
  | succ left ih =>
    rcases ht : a.turn part with ⟨b, t⟩
    cases t with
    | more =>
      obtain ⟨pauses', left', c, hc, hle, hpoint⟩ := ih (h.more ht)
      exact ⟨pauses', left', c, hc, Nat.le_succ_of_le hle, hpoint⟩
    | listen n =>
      have hdeferred := Act.tellDeferred_none hpart b n
      have htold : b.tellDeferred part n = ((b.tellDeferred part n).1, none) := by
        rw [← hdeferred]
      obtain ⟨pauses', left', c, hc, hle, hpoint⟩ := ih (h.told ht htold)
      exact ⟨pauses', left', c, hc, Nat.le_succ_of_le hle, hpoint⟩
    | wait due =>
      refine ⟨pauses, left + 1, a, h, Nat.le_refl _, ?_⟩
      rw [AtPoint, ht]
      exact .inl ⟨due, rfl⟩
    | «over» =>
      refine ⟨pauses, left + 1, a, h, Nat.le_refl _, ?_⟩
      rw [AtPoint, ht]
      exact .inr (.inl rfl)
    | failed f =>
      refine ⟨pauses, left + 1, a, h, Nat.le_refl _, ?_⟩
      rw [AtPoint, ht]
      exact .inr (.inr ⟨f, rfl⟩)

end

end Ostinato.Live
