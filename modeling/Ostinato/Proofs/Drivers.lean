import Mathlib.Data.Nat.Init
import Ostinato.Proofs.Delivery
import Ostinato.Proofs.Emission

/-!
# Whoever drives a machine

Live and offline runs step a machine and dispatch what it emits. Each keeps an `Account`, and after
`n` steps the account is a function of what the run starts from, its `Outset`. A run is `Underway` as
long as that is so and its machine has not finished, and `Over` when the machine has finished or was
cancelled. What a driver may do next is stated here once, one lemma for each outcome of a step, and
both drivers are proved against it.
-/

namespace Ostinato

open Machine (load)

namespace Machine

/-! ## The life of a run -/

section
variable {m m' : Machine} {out : Step}

theorem cancel_isFinished (m : Machine) : m.cancel.isFinished = true := by
  unfold cancel
  split
  · assumption
  · rfl

theorem cancel_executed (m : Machine) : m.cancel.executed = m.executed := by
  unfold cancel
  split <;> rfl

theorem cancel_state (h : m.isFinished = false) : m.cancel.state = .cancelled := by
  rw [cancel, if_neg (by rw [h]; exact Bool.false_ne_true)]

theorem Stepped.last (hs : Stepped m m' out) (h : (∃ t, out = .halt t) ∨ ∃ f, out = .fault f) :
    m'.isFinished = true := by
  cases hs with
  | finished hf => exact hf
  | ended | lost | refused => rfl
  | _ => rcases h with ⟨t, h⟩ | ⟨f, h⟩ <;> cases h

theorem Stepped.goes_on (hs : Stepped m m' out) (h : ∀ t, out ≠ .halt t) (h' : ∀ f, out ≠ .fault f) :
    m'.isFinished = false := by
  cases hs with
  | finished => exact absurd rfl (h _)
  | ended => exact absurd rfl (h _)
  | lost => exact absurd rfl (h' _)
  | refused => exact absurd rfl (h' _)
  | _ => rfl

theorem Stepped.executed_le (hs : Stepped m m' out) : m.executed ≤ m'.executed := by
  cases hs with
  | finished | ended | lost => exact Nat.le_refl _
  | _ => exact Nat.le_succ _

theorem Stepped.executed_le_succ (hs : Stepped m m' out) : m'.executed ≤ m.executed + 1 := by
  cases hs with
  | finished | ended | lost => exact Nat.le_succ _
  | _ => exact Nat.le_refl _

theorem Stepped.executed_eq (hs : Stepped m m' out) (h : m'.isFinished = false) :
    m'.executed = m.executed + 1 := by
  cases hs with
  | finished hf =>
    rw [hf] at h
    cases h
  | ended | lost | refused => cases h
  | _ => rfl

theorem executed_mono (m : Machine) {i j : Nat} (h : i ≤ j) :
    (m.steps i).executed ≤ (m.steps j).executed := by
  induction j, h using Nat.le_induction with
  | base => exact Nat.le_refl _
  | succ j _ ih =>
    rw [steps_succ_last]
    exact Nat.le_trans ih (m.steps j).stepped.executed_le

theorem executed_steps (m : Machine) {n : Nat} (h : ∀ k ≤ n, (m.steps k).isFinished = false) :
    (m.steps n).executed = m.executed + n := by
  induction n with
  | zero => rfl
  | succ n ih =>
    have hlast := h (n + 1) (Nat.le_refl _)
    rw [steps_succ_last] at hlast ⊢
    rw [(m.steps n).stepped.executed_eq hlast, ih fun k hk => h k (Nat.le_succ_of_le hk)]
    omega

end

end Machine

/-! ## Accounts -/

/-- What a driver keeps: its machine, the sinks, the notes that sound, the number of events that were
delivered and the faults of the others. -/
structure Account where
  machine : Machine
  sinks : Sinks
  sounding : Sounding
  emitted : Nat
  errors : List OutputFault

def Account.of (m : Machine) (b : Books) : Account :=
  { machine := m, sinks := b.sinks, sounding := Sounding.after {} b.delivered,
    emitted := b.delivered.length, errors := b.errors }

def Account.deliver (r : Router) (a : Account) (e : Event) : Account :=
  match r.post a.sinks e with
  | (sinks, none) =>
    { a with sinks := sinks, sounding := a.sounding.track e, emitted := a.emitted + 1 }
  | (sinks, some f) => { a with sinks := sinks, errors := a.errors ++ [f] }

theorem Account.of_deliver (r : Router) (m : Machine) (b : Books) (e : Event) :
    (Account.of m b).deliver r e = Account.of m (b.enter r e) := by
  unfold Account.deliver Books.enter
  rcases hpost : r.post b.sinks e with ⟨sinks, _ | f⟩
  · simp [Account.of, hpost, Sounding.after_concat]
  · simp [Account.of, hpost]

structure Outset where
  program : Program
  router : Router
  sinks : Sinks

namespace Outset

def machine (o : Outset) (n : Nat) : Machine := (load o.program).steps n

def books (o : Outset) (n : Nat) : Books := o.router.books o.sinks ((load o.program).emitted n)

def account (o : Outset) (n : Nat) : Account := Account.of (o.machine n) (o.books n)

def finalSinks (o : Outset) (n : Nat) (m : Machine) : Sinks :=
  (o.router.books o.sinks
    ((load o.program).emitted n ++ lastWords m (o.books n).delivered)).sinks

/-- What is told about such a run. -/
def result (o : Outset) (n : Nat) (m : Machine) (reason : String) : RunResult :=
  Run.result m (o.books n).delivered.length (o.books n).errors reason

/-- A run in the midst of its instructions, `n` of which it has executed. -/
structure Underway (o : Outset) (n : Nat) (a : Account) : Prop where
  account : a = o.account n
  calm : (load o.program).Calm n
  going : ∀ k ≤ n, (o.machine k).isFinished = false

/-- A run that is over: its machine has finished after `n` steps, or it was cancelled instead of
making another one. -/
structure Over (o : Outset) (n : Nat) (a : Account) : Prop where
  account : a = { o.account n with machine := a.machine }
  calm : (load o.program).Calm n
  going : ∀ k < n, (o.machine k).isFinished = false
  stopped : a.machine = o.machine n ∧ (o.machine n).isFinished = true ∨
    a.machine = (o.machine n).cancel ∧ (o.machine n).isFinished = false

section
variable {o : Outset} {n : Nat} {a : Account}

theorem machine_succ (o : Outset) (n : Nat) : o.machine (n + 1) = (o.machine n).step.1 :=
  Machine.steps_succ_last _ n

theorem books_emit {e : Event} (h : (o.machine n).step.2 = .emit e) :
    o.books (n + 1) = (o.books n).enter o.router e := by
  have hout : ((load o.program).steps n).step.2 = .emit e := h
  rw [books, Machine.emitted_succ, hout]
  exact books_concat _ _ _ e

theorem books_silent (h : (o.machine n).step.2.event? = none) : o.books (n + 1) = o.books n := by
  have hout : ((load o.program).steps n).step.2.event? = none := h
  rw [books, Machine.emitted_succ, hout, Option.toList_none, List.append_nil]
  rfl

theorem account_emit {e : Event} (h : (o.machine n).step.2 = .emit e) :
    ({ o.account n with machine := (o.machine n).step.1 } : Account).deliver o.router e =
      o.account (n + 1) := by
  show (Account.of (o.machine n).step.1 (o.books n)).deliver o.router e = _
  rw [Account.of_deliver, ← books_emit h, ← machine_succ, account]

theorem account_silent (h : (o.machine n).step.2.event? = none) :
    { o.account n with machine := (o.machine n).step.1 } = o.account (n + 1) := by
  show Account.of (o.machine n).step.1 (o.books n) = _
  rw [← books_silent h, ← machine_succ, account]

theorem underway_zero (o : Outset) : o.Underway 0 (o.account 0) := by
  refine ⟨rfl, fun k hk => absurd hk (Nat.not_lt_zero k), fun k hk => ?_⟩
  rw [Nat.le_zero.mp hk]
  rfl

namespace Underway
variable (h : o.Underway n a)
include h

theorem machine_eq : a.machine = o.machine n := by
  rw [h.account]
  rfl

theorem step_account :
    ({ a with machine := a.machine.step.1 } : Account) =
      { o.account n with machine := (o.machine n).step.1 } := by
  rw [h.machine_eq, h.account]

theorem quiet (hs : a.machine.step.2.event? = none) :
    ({ a with machine := a.machine.step.1 } : Account) = o.account (n + 1) := by
  rw [h.machine_eq] at hs
  rw [h.step_account, account_silent hs]

/-- A run that goes on after a step. -/
theorem succ {a' : Account} (ha : a' = o.account (n + 1)) (hc : ∀ f, a.machine.step.2 ≠ .overflow f)
    (hh : ∀ t, a.machine.step.2 ≠ .halt t) (hf : ∀ f, a.machine.step.2 ≠ .fault f) :
    o.Underway (n + 1) a' := by
  rw [h.machine_eq] at hc hh hf
  refine ⟨ha, h.calm.succ hc, fun k hk => ?_⟩
  rcases Nat.le_succ_iff.mp hk with hk | rfl
  · exact h.going k hk
  · rw [machine_succ]
    exact (o.machine n).stepped.goes_on hh hf

/-- An event is dispatched. -/
theorem emit {e : Event} (he : a.machine.step.2 = .emit e) :
    o.Underway (n + 1) (({ a with machine := a.machine.step.1 } : Account).deliver o.router e) := by
  refine h.succ ?_ (by simp [he]) (by simp [he]) (by simp [he])
  rw [h.machine_eq] at he
  rw [h.step_account, account_emit he]

/-- Nothing is to be done. -/
theorem silent (hs : (∃ t, a.machine.step.2 = .proceed t) ∨ ∃ t n, a.machine.step.2 = .suspend t n) :
    o.Underway (n + 1) { a with machine := a.machine.step.1 } := by
  have hevent : a.machine.step.2.event? = none := by
    rcases hs with ⟨t, hs⟩ | ⟨t, n, hs⟩ <;> rw [hs] <;> rfl
  refine h.succ (h.quiet hevent) ?_ ?_ ?_
  all_goals rcases hs with ⟨t, hs⟩ | ⟨t, n, hs⟩ <;> simp [hs]

/-- The program has ended, or has failed. -/
theorem last (hs : (∃ t, a.machine.step.2 = .halt t) ∨ ∃ f, a.machine.step.2 = .fault f) :
    o.Over (n + 1) { a with machine := a.machine.step.1 } := by
  have hevent : a.machine.step.2.event? = none := by
    rcases hs with ⟨t, hs⟩ | ⟨f, hs⟩ <;> rw [hs] <;> rfl
  have hcalm : ∀ f, a.machine.step.2 ≠ .overflow f := by
    rcases hs with ⟨t, hs⟩ | ⟨f, hs⟩ <;> simp [hs]
  rw [h.quiet hevent]
  rw [h.machine_eq] at hs hcalm
  refine ⟨rfl, h.calm.succ hcalm, fun k hk => h.going k (Nat.le_of_lt_succ hk), .inl ⟨rfl, ?_⟩⟩
  rw [machine_succ]
  exact (o.machine n).stepped.last hs

theorem cancel : o.Over n { a with machine := a.machine.cancel } := by
  rw [h.machine_eq, h.account]
  exact ⟨rfl, h.calm, fun k hk => h.going k (Nat.le_of_lt hk), .inr ⟨rfl, h.going n (Nat.le_refl n)⟩⟩

end Underway

theorem Over.not_cancelled (h : o.Over n a) (hs : a.machine.state ≠ .cancelled) :
    a.machine = o.machine n ∧ (o.machine n).isFinished = true := by
  rcases h.stopped with hm | ⟨hm, hf⟩
  · exact hm
  · rw [hm, Machine.cancel_state hf] at hs
    exact absurd rfl hs

/-! ## Ends -/

theorem finalSinks_eq (o : Outset) (n : Nat) (m : Machine) :
    o.finalSinks n m =
      ((lastWords m (o.books n).delivered).foldl (Books.enter o.router) (o.books n)).sinks := by
  rw [finalSinks, books_append]
  rfl

theorem finalSinks_halted {m : Machine} (h : m.state = .halted) :
    o.finalSinks n m = (o.books n).sinks := by
  rw [finalSinks_eq, lastWords, if_pos h]
  rfl

theorem release_finalSinks {rig : Rig} (h : rig.sinks = (o.books n).sinks) {m : Machine}
    (hm : m.state ≠ .halted) :
    (Run.release o.router rig (Sounding.after {} (o.books n).delivered) m).sinks =
      o.finalSinks n m := by
  rw [finalSinks_eq, lastWords, if_neg hm]
  exact release_books h _ m

theorem finalSinks_zero (o : Outset) (m : Machine) : o.finalSinks 0 m = o.sinks := by
  rw [finalSinks_eq]
  have hnone : lastWords m (o.books 0).delivered = [] := by
    unfold lastWords
    split <;> rfl
  rw [hnone]
  rfl

end

end Outset

end Ostinato
