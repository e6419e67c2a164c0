import Ostinato.Proofs.Drivers

/-!
# Sinks that several runs share

Sinks whose sends do not fail keep no run from anything: which events are delivered then depends on
the router alone (`post_reliable`), and not on what others have sent to the same sinks. So a run that
shares its sinks keeps the same account as one by itself, save the sinks. `Outset.Among` says this of
a run among its instructions, and there is one lemma again for each outcome of a step.
-/

namespace Ostinato

open Machine (load)

/-! ## Sinks that do not fail -/

/-- No send to the sink fails from now on. -/
def Sink.Reliable : Sink → Prop
  | .recorder fails _ sends _ => ∀ k, sends ≤ k → fails k = false
  | _ => True

def Sinks.Reliable (sinks : Sinks) : Prop := ∀ x ∈ sinks, x.2.Reliable

structure Event.InRange (e : Event) : Prop where
  channel : 0 ≤ e.channel ∧ e.channel < channelCount
  pitch : 0 ≤ e.pitch ∧ e.pitch ≤ maxNote
  velocity : 0 ≤ e.velocity ∧ e.velocity ≤ maxVelocity

def Router.refusal (r : Router) (e : Event) : Option OutputFault :=
  match r.resolve e.output with
  | .error (.unknownOutput name _) => some (.unknownOutput name (some e.index))
  | .error f => some f
  | .ok _ => none

section
variable {sinks : Sinks} {e : Event} {es : List Event} {r : Router}

theorem Sink.Reliable.send {s : Sink} (h : s.Reliable) (he : e.InRange) :
    (s.send e).1.Reliable ∧ (s.send e).2 = none := by
  cases s with
  | null => exact ⟨trivial, rfl⟩
  | recorder fails complaint sends events =>
    have hnow := h sends (Nat.le_refl _)
    simp only [Sink.send, hnow, Bool.false_eq_true, if_false]
    exact ⟨fun k hk => h k (Nat.le_of_succ_le hk), trivial⟩
  | device name sent closed =>
    have hmessage : ∃ m, Midi.Message.ofEvent e = .ok m := by
      rw [Midi.Message.ofEvent, if_neg (not_not_intro he.channel), if_neg (not_not_intro he.pitch),
        if_neg (not_not_intro he.velocity)]
      exact ⟨_, rfl⟩
    obtain ⟨m, hm⟩ := hmessage
    simp only [Sink.send, hm]
    exact ⟨trivial, trivial⟩
  | osc base sent => exact ⟨trivial, rfl⟩

theorem Sinks.Reliable.get (h : sinks.Reliable) {id : String} {s : Sink}
    (hs : sinks.get? id = some s) : s.Reliable := by
  obtain ⟨before, after, hsinks, -⟩ := List.lookup_eq_some_iff.mp hs
  exact h (id, s) (by rw [hsinks]; simp)

theorem Sinks.Reliable.put (h : sinks.Reliable) {s : Sink} (hs : s.Reliable) (id : String) :
    (sinks.put id s).Reliable := by
  induction sinks with
  | nil => exact List.forall_mem_singleton.mpr hs
  | cons x rest ih =>
    obtain ⟨hx, hrest⟩ := List.forall_mem_cons.mp h
    rw [Sinks.put]
    split
    · exact List.forall_mem_cons.mpr ⟨hs, hrest⟩
    · exact List.forall_mem_cons.mpr ⟨hx, ih hrest⟩

/-- Whether an event is delivered to sinks that do not fail is for the router to say. -/
theorem post_reliable (h : sinks.Reliable) (he : e.InRange) :
    (r.post sinks e).1.Reliable ∧ (r.post sinks e).2 = r.refusal e := by
  unfold Router.post Router.dispatch Router.refusal
  cases hresolve : r.resolve e.output with
  | error f => cases f <;> exact ⟨h, rfl⟩
  | ok sink =>
    cases sink with
    | none => exact ⟨h, rfl⟩
    | some id =>
      dsimp only
      unfold Router.sendTo
      dsimp only
      split
      · exact ⟨h, rfl⟩
      · exact ⟨h, rfl⟩
      · rename_i s _ hs
        obtain ⟨hsink, hfault⟩ := (h.get hs).send he
        exact ⟨h.put hsink id, hfault⟩

theorem books_reliable (h : sinks.Reliable) (hes : ∀ e ∈ es, e.InRange) :
    (r.books sinks es).sinks.Reliable := by
  induction es using List.reverseRecOn with
  | nil => exact h
  | append_singleton es e ih =>
    obtain ⟨hes, he⟩ := List.forall_mem_append.mp hes
    rw [books_concat, Books.enter_sinks]
    exact (post_reliable (ih hes) (he e (by simp))).1

theorem mem_of_delivered (he : e ∈ (r.books sinks es).delivered) : e ∈ es := by
  induction es using List.reverseRecOn with
  | nil => cases he
  | append_singleton es e' ih =>
    rw [books_concat] at he
    rcases Books.enter_cases r (r.books sinks es) e' with ⟨-, h⟩ | ⟨f, -, h⟩
    · rw [h] at he
      rcases List.mem_append.mp he with he | he
      · exact List.mem_append_left _ (ih he)
      · exact List.mem_append_right _ he
    · rw [h] at he
      exact List.mem_append_left _ (ih he)

theorem books_append_sinks (r : Router) (sinks : Sinks) (es more : List Event) :
    (r.books sinks (es ++ more)).sinks = (r.books (r.books sinks es).sinks more).sinks := by
  induction more using List.reverseRecOn with
  | nil => rw [List.append_nil]; rfl
  | append_singleton more e ih =>
    rw [← List.append_assoc, books_concat, books_concat, Books.enter_sinks, Books.enter_sinks, ih]

/-! ## What a machine emits is in range -/

theorem Machine.event_inRange {m : Machine} {s : Send} (h : m.event s = .ok e) : e.InRange := by
  unfold Machine.event at h
  split at h
  · cases h
  · rename_i hchannel
    split at h
    · cases h
    · rename_i hpitch
      split at h
      · cases h
      · rename_i hvelocity
        cases h
        exact ⟨not_not.mp hchannel, not_not.mp hpitch, not_not.mp hvelocity⟩

theorem Machine.emit_inRange {m : Machine} (h : m.step.2 = .emit e) : e.InRange := by
  have hstepped := m.stepped
  rw [h] at hstepped
  generalize m.step.1 = m' at hstepped
  cases hstepped with
  | sent _ hnote =>
    obtain ⟨n, e', he, hsame⟩ := hnote.exists_event
    obtain ⟨hchannel, hpitch, hvelocity⟩ := event_inRange he
    exact hsame ▸ ⟨hchannel, hpitch, hvelocity⟩

theorem Machine.emitted_inRange (m : Machine) (n : Nat) : ∀ e ∈ m.emitted n, e.InRange := by
  induction n with
  | zero => simp
  | succ n ih =>
    rw [emitted_succ]
    refine List.forall_mem_append.mpr ⟨ih, fun e he => ?_⟩
    cases hout : (m.steps n).step.2 with
    | emit e' =>
      rw [hout] at he
      cases List.mem_singleton.mp he
      exact emit_inRange hout
    | _ =>
      rw [hout] at he
      cases he

/-- A run releases what it has sent itself, so its releases are in range too. -/
theorem lastWords_inRange (m : Machine) (h : ∀ e ∈ es, e.InRange) :
    ∀ e ∈ lastWords m es, e.InRange := by
  intro e he
  obtain ⟨hvelocity, e', hmem, hkey⟩ := delivered_of_lastWords he
  have hchannel : e'.channel = e.channel := congrArg NoteKey.channel hkey
  have hpitch : e'.pitch = e.pitch := congrArg NoteKey.pitch hkey
  have hrange := h e' hmem
  exact ⟨hchannel ▸ hrange.channel, hpitch ▸ hrange.pitch, by rw [hvelocity]; decide⟩

end

/-! ## Accounts with shared sinks -/

def Account.withSinks (a : Account) (sinks : Sinks) : Account := { a with sinks := sinks }

/-- What others have sent to sinks that do not fail makes no difference to a delivery. -/
theorem Account.deliver_withSinks {r : Router} {a : Account} {sinks : Sinks} {e : Event}
    (ha : a.sinks.Reliable) (hs : sinks.Reliable) (he : e.InRange) :
    (a.withSinks sinks).deliver r e = (a.deliver r e).withSinks (r.post sinks e).1 := by
  obtain ⟨-, hfault⟩ := post_reliable (r := r) ha he
  obtain ⟨-, hfault'⟩ := post_reliable (r := r) hs he
  rw [← hfault] at hfault'
  unfold Account.deliver withSinks
  dsimp only
  rcases hpost : r.post a.sinks e with ⟨sinks₁, fault⟩
  rcases hpost' : r.post sinks e with ⟨sinks₂, fault'⟩
  rw [hpost, hpost'] at hfault'
  cases hfault'
  cases fault <;> rfl

theorem Account.deliver_sinks (r : Router) (a : Account) (e : Event) :
    (a.deliver r e).sinks = (r.post a.sinks e).1 := by
  unfold Account.deliver
  split <;> rename_i h <;> rw [h]

namespace Outset

/-- A run in the midst of its instructions, `n` of which it has executed, that may share its sinks
with others. -/
def Among (o : Outset) (n : Nat) (a : Account) : Prop :=
  o.Underway n (a.withSinks (o.books n).sinks)

/-- A run that is over after `n` steps and may share its sinks. -/
def Through (o : Outset) (n : Nat) (a : Account) : Prop :=
  o.Over n (a.withSinks (o.books n).sinks)

/-- A run, with sinks that it may share, that has failed in the step after `n` others. -/
structure Stuck (o : Outset) (n : Nat) (f : Overflow) (a : Account) : Prop where
  account : a.withSinks (o.books (n + 1)).sinks = o.account (n + 1)
  calm : (load o.program).Calm n
  going : ∀ k ≤ n, (o.machine k).isFinished = false
  overflow : (o.machine n).step.2 = .overflow f

section
variable {o : Outset} {n : Nat} {a : Account}

theorem books_reliable (ho : o.sinks.Reliable) (n : Nat) : (o.books n).sinks.Reliable :=
  Ostinato.books_reliable ho ((load o.program).emitted_inRange n)

theorem among_zero (h : a.withSinks o.sinks = o.account 0) : o.Among 0 a := by
  have hzero := o.underway_zero
  rw [← h] at hzero
  exact hzero

namespace Among
variable (h : o.Among n a)
include h

theorem machine_eq : a.machine = o.machine n := by
  have hunder : o.Underway n (a.withSinks (o.books n).sinks) := h
  exact hunder.machine_eq

/-- An event is dispatched. -/
theorem emit (ho : o.sinks.Reliable) (ha : a.sinks.Reliable) {e : Event}
    (he : a.machine.step.2 = .emit e) :
    o.Among (n + 1) (({ a with machine := a.machine.step.1 } : Account).deliver o.router e) := by
  have hnext := Underway.emit h he
  have hm : (o.machine n).step.2 = .emit e := by rw [← h.machine_eq, he]
  have hsinks : (o.router.post (o.books n).sinks e).1 = (o.books (n + 1)).sinks := by
    rw [books_emit hm, Books.enter_sinks]
  have hother := Account.deliver_withSinks (r := o.router)
    (a := { a with machine := a.machine.step.1 }) ha (books_reliable ho n) (Machine.emit_inRange he)
  rw [hsinks] at hother
  rw [Among, ← hother]
  exact hnext

/-- Nothing is to be done. -/
theorem silent (hs : (∃ t, a.machine.step.2 = .proceed t) ∨ ∃ t n, a.machine.step.2 = .suspend t n) :
    o.Among (n + 1) { a with machine := a.machine.step.1 } := by
  have hevent : (o.machine n).step.2.event? = none := by
    rw [← h.machine_eq]
    rcases hs with ⟨t, hs⟩ | ⟨t, n, hs⟩ <;> rw [hs] <;> rfl
  rw [Among, books_silent hevent]
  exact Underway.silent h hs

/-- The program has ended, or has failed. -/
theorem last (hs : (∃ t, a.machine.step.2 = .halt t) ∨ ∃ f, a.machine.step.2 = .fault f) :
    o.Through (n + 1) { a with machine := a.machine.step.1 } := by
  have hevent : (o.machine n).step.2.event? = none := by
    rw [← h.machine_eq]
    rcases hs with ⟨t, hs⟩ | ⟨f, hs⟩ <;> rw [hs] <;> rfl
  rw [Through, books_silent hevent]
  exact Underway.last h hs

theorem cancel : o.Through n { a with machine := a.machine.cancel } := Underway.cancel h

theorem overflow {f : Overflow} (hs : a.machine.step.2 = .overflow f) :
    o.Stuck n f { a with machine := a.machine.step.1 } := by
  have hm : (o.machine n).step.2 = .overflow f := by rw [← h.machine_eq, hs]
  have hevent : (o.machine n).step.2.event? = none := by rw [hm]; rfl
  refine ⟨?_, h.calm, h.going, hm⟩
  rw [books_silent hevent]
  exact Underway.quiet h (congrArg Step.event? hs)

end Among

end

end Outset

end Ostinato
