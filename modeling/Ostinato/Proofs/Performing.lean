import Ostinato.Live.Act
import Ostinato.Proofs.Drivers

/-!
# A live run between its scheduling points

Listeners are told of what a run does, but they have no part in its account: they can only ask it to
stop, or end it by failing. So a stretch leaves a run underway, over or failed (`stretch_stands`),
and whichever it is, what `leave` releases then is determined by the account.
-/

namespace Ostinato

namespace Outset

/-- A run that has ended with a result: the sinks are the final ones for what it has handled. -/
def Settled (o : Outset) (a : Account) (r : RunResult) : Prop :=
  ∃ n, o.Over n { o.account n with machine := a.machine } ∧ a.sinks = o.finalSinks n a.machine ∧
    r = o.result n a.machine ""

/-- A run that has ended somehow. -/
def Closed (o : Outset) (a : Account) : Prop :=
  ∃ n, (a.machine = o.machine n ∨ a.machine = (o.machine n).cancel) ∧
    a.sinks = o.finalSinks n a.machine

theorem Settled.closed {o : Outset} {a : Account} {r : RunResult} (h : o.Settled a r) :
    o.Closed a := by
  obtain ⟨n, hover, hsinks, -⟩ := h
  rcases hover.stopped with ⟨hm, -⟩ | ⟨hm, -⟩
  · exact ⟨n, .inl hm, hsinks⟩
  · exact ⟨n, .inr hm, hsinks⟩

theorem closed_zero {o : Outset} {a : Account} (h : a = o.account 0) : o.Closed a := by
  rw [h]
  exact ⟨0, .inl rfl, (o.finalSinks_zero _).symm⟩

end Outset

namespace Live

def Act.account (a : Act) : Account :=
  { machine := a.machine, sinks := a.rig.sinks, sounding := a.sounding, emitted := a.emitted,
    errors := a.errors.toList }

namespace Act

/-! ## Listeners -/

section
variable (a : Act) (part : Part) (n : Notice)

theorem call_account (l : Listener) : (a.call l n).1.account = a.account := by
  unfold call
  dsimp only
  split <;> rfl

theorem callUntilFailure_account (ls : List Listener) :
    (a.callUntilFailure n ls).1.account = a.account := by
  induction ls generalizing a with
  | nil => rfl
  | cons l rest ih =>
    have hcall := a.call_account n l
    unfold callUntilFailure
    split
    · rename_i h
      rw [h] at hcall
      exact (ih _).trans hcall
    · rename_i h
      rw [h] at hcall
      exact hcall

theorem callAll_account (ls : List Listener) : (a.callAll n ls).1.account = a.account := by
  induction ls generalizing a with
  | nil => rfl
  | cons l rest ih => exact (ih _).trans (a.call_account n l)

theorem tell_account : (a.tell part n).1.account = a.account := callUntilFailure_account _ _ _

theorem tellDeferred_account : (a.tellDeferred part n).1.account = a.account :=
  callAll_account _ _ _

theorem andDeferred_account (failure : Option String) :
    (Act.andDeferred part n (a, failure)).1.account = a.account := by
  cases failure with
  | none => exact a.tellDeferred_account part n
  | some message => rfl

end

/-! ## Turns -/

section
variable {o : Outset} {part : Part} {a : Act} {k : Nat}

/-- How the account of a run stands with what a turn has come to. -/
def Turn.Stands (o : Outset) (a : Account) : Turn → Prop
  | .over => ∃ n, o.Over n a
  | .failed _ => ∃ n, a = o.account n
  | .more | .wait _ | .listen _ => ∃ n, o.Underway n a

theorem report_stands (h : o.Underway k a.account) (n : Notice) :
    (a.report part n).2.Stands o (a.report part n).1.account := by
  have htell := a.tell_account part n
  unfold report
  split
  · rename_i a' he
    rw [he] at htell
    rw [← htell] at h
    dsimp only
    split <;> exact ⟨k, h⟩
  · rename_i a' message he
    rw [he] at htell
    exact ⟨k, htell.trans h.account⟩

theorem perform_report (a : Act) (part : Part) (e : Event) :
    ∃ (a' : Act) (n : Notice), a.perform part e = a'.report part n ∧
      a'.account = a.account.deliver part.router e := by
  obtain ⟨hsinks, hfault⟩ := deliver_post part.router a.rig e
  unfold perform
  split
  · rename_i rig h
    rw [h] at hsinks hfault
    refine ⟨_, _, rfl, ?_⟩
    have hpost : part.router.post a.account.sinks e = (rig.sinks, none) :=
      Prod.ext hsinks.symm hfault.symm
    rw [Account.deliver, hpost]
    rfl
  · rename_i rig f h
    rw [h] at hsinks hfault
    refine ⟨_, _, rfl, ?_⟩
    have hpost : part.router.post a.account.sinks e = (rig.sinks, some f) :=
      Prod.ext hsinks.symm hfault.symm
    rw [Account.deliver, hpost]
    simp [account]

theorem perform_stands {e : Event} (h : o.Underway k (a.account.deliver part.router e)) :
    (a.perform part e).2.Stands o (a.perform part e).1.account := by
  obtain ⟨a', n, he, haccount⟩ := a.perform_report part e
  rw [he]
  exact report_stands (haccount ▸ h) n

theorem turn_stands (hr : part.router = o.router) (h : o.Underway k a.account) :
    (a.turn part).2.Stands o (a.turn part).1.account := by
  unfold turn
  split
  · exact ⟨k, h.cancel⟩
  · dsimp only
    split
    · rename_i e he
      have hnext := h.emit he
      rw [← hr] at hnext
      exact perform_stands hnext
    · rename_i due ticks hs
      exact ⟨k + 1, h.silent (.inr ⟨due, ticks, hs⟩)⟩
    · rename_i t hs
      exact ⟨k + 1, h.silent (.inl ⟨t, hs⟩)⟩
    · rename_i t hs
      exact ⟨k + 1, h.last (.inl ⟨t, hs⟩)⟩
    · rename_i f hs
      exact ⟨k + 1, h.last (.inr ⟨f, hs⟩)⟩
    · rename_i f hs
      exact ⟨k + 1, h.quiet (congrArg Step.event? hs)⟩

/-! ## Stretches -/

/-- How the account of a run stands when it gives way. -/
def Pause.Stands (o : Outset) (a : Account) : Pause → Prop
  | .over => ∃ n, o.Over n a
  | .failed _ => ∃ n, a = o.account n
  | .yield | .wait _ | .listen .. => ∃ n, o.Underway n a

theorem stretch_stands (hr : part.router = o.router) (h : o.Underway k a.account) (left : Nat) :
    (a.stretch part left).2.Stands o (a.stretch part left).1.account := by
  induction left generalizing a k with
  | zero => exact ⟨k, h⟩
  | succ left ih =>
    have hturn := a.turn_stands hr h
    unfold stretch
    split
    · rename_i a' he
      rw [he] at hturn
      obtain ⟨k', h'⟩ := hturn
      exact ih h'
    all_goals
      rename_i he
      rw [he] at hturn
      exact hturn

theorem enter_account (a : Act) (part : Part) (hp : a.machine.program = o.program)
    (hs : a.rig.sinks = o.sinks) : (a.enter part).1.account = o.account 0 := by
  unfold enter
  dsimp only
  rw [tell_account]
  show (⟨Machine.load a.machine.program, a.rig.sinks, {}, 0, []⟩ : Account) = o.account 0
  rw [hp, hs]
  rfl

/-! ## Ends -/

theorem leave_machine : (a.leave part).machine = a.machine := by
  unfold leave
  split <;> rfl

theorem leave_sinks (hr : part.router = o.router)
    (h : a.account = { o.account k with machine := a.machine }) :
    (a.leave part).rig.sinks = o.finalSinks k a.machine := by
  have hsinks : a.rig.sinks = (o.books k).sinks := congrArg Account.sinks h
  have hsounding : a.sounding = Sounding.after {} (o.books k).delivered :=
    congrArg Account.sounding h
  unfold leave
  split
  · rename_i hm
    rw [Outset.finalSinks_halted hm]
    exact hsinks
  · rename_i hm
    rw [hr, hsounding]
    exact Outset.release_finalSinks hsinks hm

theorem leave_closed (hr : part.router = o.router) (h : a.account = o.account k) :
    o.Closed (a.leave part).account := by
  have hm : a.machine = o.machine k := congrArg Account.machine h
  have hsame : a.account = { o.account k with machine := a.machine } := by
    rw [hm]
    exact h
  have hmachine : (a.leave part).account.machine = a.machine := leave_machine
  have hsinks : (a.leave part).account.sinks = o.finalSinks k a.machine := leave_sinks hr hsame
  exact ⟨k, .inl (hmachine.trans hm), by rw [hsinks, hmachine]⟩

theorem conclude_settled (hr : part.router = o.router) (h : o.Over k a.account) :
    o.Settled (a.conclude part).1.account (a.conclude part).2.1 := by
  have hmachine : (a.conclude part).1.account.machine = a.machine := by
    unfold conclude
    exact (congrArg Account.machine (tell_account _ part _)).trans leave_machine
  have hsinks : (a.conclude part).1.account.sinks = o.finalSinks k a.machine := by
    unfold conclude
    exact (congrArg Account.sinks (tell_account _ part _)).trans (leave_sinks hr h.account)
  have hresult : (a.conclude part).2.1 = o.result k a.machine "" := by
    have hemitted : a.emitted = (o.books k).delivered.length := congrArg Account.emitted h.account
    have herrors : a.errors.toList = (o.books k).errors := congrArg Account.errors h.account
    rw [Outset.result, ← hemitted, ← herrors]
    unfold conclude leave
    dsimp only
    split <;> rfl
  refine ⟨k, ?_, ?_, ?_⟩
  · rw [hmachine]
    exact h.account ▸ h
  · rw [hmachine]
    exact hsinks
  · rw [hmachine]
    exact hresult

end

end Act

/-! ## A run by itself -/

/-- How things stand when a run has ended. -/
def Ends (o : Outset) (a : Account) : Ending → Prop
  | .ok r => o.Settled a r
  | .error _ => o.Closed a

theorem Ends.closed {o : Outset} {a : Account} {e : Ending} (h : Ends o a e) : o.Closed a := by
  cases e with
  | ok r => exact Outset.Settled.closed h
  | error f => exact h

section
variable {o : Outset} {part : Part} {a : Act} {k : Nat}

theorem finish_ends (hr : part.router = o.router) (h : o.Over k a.account) :
    Ends o (finish part a).1.account (finish part a).2 := by
  have hsettled := a.conclude_settled hr h
  have hdeferred := (a.conclude part).1.andDeferred_account part (.stop (a.conclude part).2.1)
    (a.conclude part).2.2
  rw [← hdeferred] at hsettled
  unfold finish
  dsimp only
  split
  · rename_i he
    rw [he] at hsettled
    exact hsettled
  · rename_i he
    rw [he] at hsettled
    exact Outset.Settled.closed hsettled

/-- A run that goes from pause to pause ends as it should, however it ends. -/
theorem playFrom_ends (hr : part.router = o.router) (cue : Cue) (fuel left : Nat)
    (h : o.Underway k a.account) {a' : Act} {e : Ending}
    (he : playFrom part cue fuel left a = (a', some e)) : Ends o a'.account e := by
  induction fuel generalizing a k left with
  | zero => cases he
  | succ fuel ih =>
    have hstretch := a.stretch_stands hr h left
    unfold playFrom at he
    split at he
    · rename_i b f hb
      rw [hb] at hstretch
      obtain ⟨n, hn⟩ := hstretch
      cases he
      exact b.leave_closed hr hn
    · rename_i b hb
      rw [hb] at hstretch
      obtain ⟨n, hn⟩ := hstretch
      cases he
      exact finish_ends hr hn
    · rename_i b notice left' hb
      rw [hb] at hstretch
      obtain ⟨n, hn⟩ := hstretch
      have htold := b.tellDeferred_account part notice
      split at he
      · rename_i c hc
        rw [hc] at htold
        exact ih left' (htold ▸ hn) he
      · rename_i c message hc
        rw [hc] at htold
        cases he
        exact c.leave_closed hr (htold.trans hn.account)
    · rename_i b pause hf ho hl hb
      rw [hb] at hstretch
      -- What is left are pauses at which nobody is told anything.
      have hunder : ∃ n, o.Underway n b.account := by
        cases pause with
        | yield | wait => exact hstretch
        | listen n l => exact absurd rfl (hl n l)
        | «over» => exact absurd rfl ho
        | failed f => exact absurd rfl (hf f)
      obtain ⟨n, hn⟩ := hunder
      exact ih part.yieldInterval (a := { b with cancelled := b.cancelled || cue b pause }) hn he

/-- The run lemma. -/
theorem play_ends (cue : Cue) (fuel : Nat) (a : Act) {a' : Act} {e : Ending}
    (he : play part cue fuel a = (a', some e)) :
    Ends ⟨a.machine.program, part.router, a.rig.sinks⟩ a'.account e := by
  have hentered : (a.enter part).1.account =
      (⟨a.machine.program, part.router, a.rig.sinks⟩ : Outset).account 0 :=
    a.enter_account part rfl rfl
  have htold := (a.enter part).1.andDeferred_account part .start (a.enter part).2
  rw [hentered] at htold
  unfold play at he
  split at he
  · rename_i b message hb
    rw [hb] at htold
    cases he
    exact Outset.closed_zero htold
  · rename_i b hb
    rw [hb] at htold
    exact playFrom_ends rfl cue fuel _ (htold ▸ Outset.underway_zero _) he

end

end Live

end Ostinato
