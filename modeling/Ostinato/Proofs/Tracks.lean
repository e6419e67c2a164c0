import Ostinato.Proofs.Alone
import Ostinato.Proofs.Sharing

/-!
# Tracks

A track is a run without listeners that shares its sinks with others. From one scheduling point to the
next it dispatches what its machine emits (`stretch_shares`), and when it ends, what it leaves sounding
is released. If no send fails, that is what the program does by itself, and it comes to the same end
(`Outset.Matches`).
-/

namespace Ostinato

open Machine (load)

namespace Outset

/-- The events between two steps lead from some sinks to others. -/
def Sends (o : Outset) (n k : Nat) (before after : Sinks) : Prop :=
  ∃ es, (load o.program).emitted k = (load o.program).emitted n ++ es ∧
    after = (o.router.books before es).sinks

section
variable {o : Outset} {n k l : Nat} {before between after : Sinks}

theorem Sends.refl (o : Outset) (n : Nat) (sinks : Sinks) : o.Sends n n sinks sinks :=
  ⟨[], (List.append_nil _).symm, rfl⟩

theorem Sends.trans (h : o.Sends n k before between) (h' : o.Sends k l between after) :
    o.Sends n l before after := by
  obtain ⟨es, hes, rfl⟩ := h
  obtain ⟨es', hes', rfl⟩ := h'
  exact ⟨es ++ es', by rw [hes', hes, List.append_assoc], (books_append_sinks _ _ _ _).symm⟩

theorem Sends.emit {e : Event} (he : (o.machine n).step.2 = .emit e) (sinks : Sinks) :
    o.Sends n (n + 1) sinks (o.router.post sinks e).1 := by
  have hout : ((load o.program).steps n).step.2 = .emit e := he
  refine ⟨[e], by rw [Machine.emitted_succ, hout]; rfl, ?_⟩
  have hbooks := books_concat o.router sinks [] e
  rw [List.nil_append] at hbooks
  rw [hbooks, Books.enter_sinks]
  rfl

theorem Sends.silent (h : (o.machine n).step.2.event? = none) (sinks : Sinks) :
    o.Sends n (n + 1) sinks sinks := by
  have hout : ((load o.program).steps n).step.2.event? = none := h
  refine ⟨[], by rw [Machine.emitted_succ, hout]; rfl, rfl⟩

theorem Sends.reliable (h : o.Sends n k before after) (hb : before.Reliable) :
    after.Reliable := by
  obtain ⟨es, hes, rfl⟩ := h
  have hrange := (load o.program).emitted_inRange k
  rw [hes] at hrange
  exact Ostinato.books_reliable hb (List.forall_mem_append.mp hrange).2

end

/-- What a program has in common with a track of it that handled `n` steps, released some notes and
ended so. -/
structure Matches (o : Outset) (n : Nat) (released : List Event) (e : Live.Ending) : Prop where
  /-- By itself, cancelled after as many instructions if the track was, the program comes to the same
  end, and the sinks are as after the same events. -/
  alone : ∀ rig : Rig, rig.sinks = o.sinks → ∃ (fuel : Nat) (a : Live.Act),
    Live.alone o.program o.router rig (Live.stopOf e) fuel = (a, some e) ∧
      a.rig.sinks =
        (o.router.books o.sinks ((load o.program).emitted n ++ released)).sinks
  /-- A track that halted or faulted has dispatched everything. -/
  complete : ∀ r, e = .ok r → r.state = .halted ∨ r.state = .faulted →
    ∀ k, n ≤ k → (load o.program).emitted k = (load o.program).emitted n
  /-- Any other turns off its own notes, those that its last event left sounding, and no others. -/
  releases : ∀ r, e = .ok r →
    Releases r.state r.seconds r.ticks (o.books n).delivered released

section
variable {o : Outset} {n : Nat} {a : Account}

theorem Through.matches (h : o.Through n a) :
    o.Matches n (lastWords a.machine (o.books n).delivered) (.ok (o.result n a.machine "")) where
  alone rig hrig := Live.alone_over (a := a.withSinks (o.books n).sinks) hrig h
  complete r hr hend k hk := by
    cases hr
    have hstate : a.machine.state ≠ .cancelled := by
      rcases hend with hs | hs
      · exact fun hc => by rw [show a.machine.state = .halted from hs] at hc; cases hc
      · exact fun hc => by rw [show a.machine.state = .faulted from hs] at hc; cases hc
    exact Machine.emitted_of_finished (Over.not_cancelled h hstate).2 hk
  releases r hr := by
    cases hr
    exact lastWords_releases a.machine (o.books n).delivered

theorem Stuck.machine_eq {f : Overflow} (h : o.Stuck n f a) : a.machine = o.machine (n + 1) :=
  congrArg Account.machine h.account

theorem Stuck.matches {f : Overflow} (h : o.Stuck n f a) :
    o.Matches (n + 1) (lastWords a.machine (o.books (n + 1)).delivered)
      (.error (.overflow f)) where
  alone rig hrig := by
    rw [h.machine_eq]
    exact Live.alone_fails hrig h.calm h.going h.overflow
  complete r hr := by cases hr
  releases r hr := by cases hr

end

end Outset

namespace Live

/-- How a track stands with what a turn has come to, after `n` steps. -/
def Act.Turn.Shares (o : Outset) (n : Nat) (a : Account) : Act.Turn → Prop
  | .more | .wait _ => o.Among n a
  | .listen _ => False
  | .over => o.Through n a
  | .failed f => ∃ k x, n = k + 1 ∧ f = .overflow x ∧ o.Stuck k x a

/-- How it stands when it gives way. -/
def Act.Pause.Shares (o : Outset) (n : Nat) (a : Account) : Act.Pause → Prop
  | .yield | .wait _ => o.Among n a
  | .listen .. => False
  | .over => o.Through n a
  | .failed f => ∃ k x, n = k + 1 ∧ f = .overflow x ∧ o.Stuck k x a

namespace Act

section
variable {o : Outset} {part : Part} {a : Act} {k n : Nat} (hl : part.listeners = [])
  (hr : part.router = o.router) (ho : o.sinks.Reliable)
include hl hr ho

theorem turn_shares (ha : a.rig.sinks.Reliable) (h : o.Among k a.account) :
    ∃ n, o.Sends k n a.rig.sinks (a.turn part).1.rig.sinks ∧
      (a.turn part).2.Shares o n (a.turn part).1.account := by
  have hm : a.machine = o.machine k := h.machine_eq
  have hquiet : a.machine.step.2.event? = none →
      o.Sends k (k + 1) a.rig.sinks a.rig.sinks := fun hs => .silent (hm ▸ hs) _
  unfold turn
  split
  · exact ⟨k, .refl o k _, h.cancel⟩
  · dsimp only
    cases hstep : a.machine.step.2 with
    | emit e =>
      obtain ⟨b, hb, haccount, -⟩ := perform_nobody hl a.stepped e
      have hnext := h.emit ho ha hstep
      have hsinks : b.rig.sinks = (o.router.post a.rig.sinks e).1 := by
        rw [← hr]
        exact (congrArg Account.sinks haccount).trans (Account.deliver_sinks _ _ _)
      rw [← hr] at hnext
      unfold stepped at hb
      dsimp only at hb ⊢
      rw [hb]
      exact ⟨k + 1, hsinks ▸ .emit (hm ▸ hstep) _, haccount ▸ hnext⟩
    | suspend due ticks =>
      exact ⟨k + 1, hquiet (by rw [hstep]; rfl), h.silent (.inr ⟨due, ticks, hstep⟩)⟩
    | proceed t => exact ⟨k + 1, hquiet (by rw [hstep]; rfl), h.silent (.inl ⟨t, hstep⟩)⟩
    | halt t => exact ⟨k + 1, hquiet (by rw [hstep]; rfl), h.last (.inl ⟨t, hstep⟩)⟩
    | fault f => exact ⟨k + 1, hquiet (by rw [hstep]; rfl), h.last (.inr ⟨f, hstep⟩)⟩
    | overflow f =>
      exact ⟨k + 1, hquiet (by rw [hstep]; rfl), k, f, rfl, rfl, h.overflow hstep⟩

/-- From one scheduling point to the next a track dispatches what its machine emits. -/
theorem stretch_shares (ha : a.rig.sinks.Reliable) (h : o.Among k a.account) (left : Nat) :
    ∃ n, o.Sends k n a.rig.sinks (a.stretch part left).1.rig.sinks ∧
      (a.stretch part left).2.Shares o n (a.stretch part left).1.account := by
  induction left generalizing a k with
  | zero => exact ⟨k, .refl o k _, h⟩
  | succ left ih =>
    obtain ⟨n, hsends, hshares⟩ := turn_shares hl hr ho ha h
    unfold stretch
    split
    · rename_i b hb
      rw [hb] at hsends hshares
      obtain ⟨n', hsends', hshares'⟩ := ih (hsends.reliable ha) hshares
      exact ⟨n', hsends.trans hsends', hshares'⟩
    all_goals
      rename_i hb
      rw [hb] at hsends hshares
    · exact ⟨n, hsends, hshares⟩
    · exact hshares.elim
    · exact ⟨n, hsends, hshares⟩
    · exact ⟨n, hsends, hshares⟩

end

section
variable {o : Outset} {part : Part} {a : Act} {n : Nat} (hr : part.router = o.router)
include hr

theorem leave_shares
    (h : a.account.withSinks (o.books n).sinks = { o.account n with machine := a.machine }) :
    (a.leave part).rig.sinks =
      (o.router.books a.rig.sinks (lastWords a.machine (o.books n).delivered)).sinks := by
  have hsounding : a.sounding = Sounding.after {} (o.books n).delivered :=
    congrArg Account.sounding h
  unfold leave lastWords
  split
  · rfl
  · rw [hr, hsounding]
    exact release_books (b := { sinks := a.rig.sinks }) rfl _ _

theorem conclude_shares (hl : part.listeners = []) (h : o.Through n a.account) :
    ∃ b : Act, a.conclude part = (b, o.result n a.machine "", none) ∧
      b.rig.sinks =
        (o.router.books a.rig.sinks (lastWords a.machine (o.books n).delivered)).sinks := by
  obtain ⟨b, hb, -, hsinks⟩ := a.conclude_nobody hl
  have hemitted : a.emitted = (o.books n).delivered.length :=
    congrArg Account.emitted (Outset.Over.account h)
  have herrors : a.errors.toList = (o.books n).errors :=
    congrArg Account.errors (Outset.Over.account h)
  rw [hemitted, herrors] at hb
  exact ⟨b, hb, hsinks.trans (leave_shares hr (Outset.Over.account h))⟩

end

end Act

end Live

end Ostinato
