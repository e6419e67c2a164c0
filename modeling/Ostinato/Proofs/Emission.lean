import Ostinato.Proofs.Stepping

/-!
# What a run emits

`emissions` follows a run of moves and collects the events of its steps. A reset begins a run of its
own, so what was emitted before it is dropped. A property of a machine together with what it has
emitted holds after every run if every move keeps it (`emissions_induct`); `emitted` is the special
case of steps alone, the one that whoever drives a machine sees.
-/

namespace Ostinato

def Step.event? : Step → Option Event
  | .emit e => some e
  | _ => none

namespace Machine

/-- What has been emitted after one more move. -/
def hear (m : Machine) (es : List Event) : Move → List Event
  | .step => es ++ m.step.2.event?.toList
  | .cancel => es
  | .reset => []

/-- What has been emitted after some more moves: the events since the last reset, and those of `es`
before them if there was none. -/
def emissions (m : Machine) (es : List Event) : List Move → List Event
  | [] => es
  | a :: rest => (m.move a).emissions (m.hear es a) rest

theorem emissions_append (m : Machine) (es : List Event) (moves later : List Move) :
    m.emissions es (moves ++ later) = (m.after moves).emissions (m.emissions es moves) later := by
  induction moves generalizing m es with
  | nil => rfl
  | cons a rest ih => exact ih (m.move a) (m.hear es a)

/-- What every move keeps of a machine and its events holds after every run. -/
theorem emissions_induct {P : Machine → List Event → Prop}
    (hmove : ∀ m es a, P m es → P (m.move a) (m.hear es a)) {m : Machine} {es : List Event}
    (hm : P m es) (moves : List Move) : P (m.after moves) (m.emissions es moves) := by
  induction moves generalizing m es with
  | nil => exact hm
  | cons a rest ih => exact ih (hmove m es a hm)

theorem steps_succ_last (m : Machine) (n : Nat) : m.steps (n + 1) = (m.steps n).step.1 :=
  m.steps_add n 1

def emitted (m : Machine) (n : Nat) : List Event := m.emissions [] (List.replicate n .step)

@[simp] theorem emitted_zero (m : Machine) : m.emitted 0 = [] := rfl

theorem emitted_succ (m : Machine) (n : Nat) :
    m.emitted (n + 1) = m.emitted n ++ (m.steps n).step.2.event?.toList := by
  rw [emitted, List.replicate_succ', emissions_append]
  rfl

theorem emitted_add (m : Machine) (n k : Nat) :
    m.emitted (n + k) = m.emitted n ++ (m.steps n).emitted k := by
  induction k with
  | zero => rw [Nat.add_zero, emitted_zero, List.append_nil]
  | succ k ih => rw [← Nat.add_assoc, emitted_succ, emitted_succ, ih, steps_add, List.append_assoc]

theorem emitted_succ_first (m : Machine) (n : Nat) :
    m.emitted (n + 1) = m.step.2.event?.toList ++ m.step.1.emitted n := by
  rw [Nat.add_comm, emitted_add, emitted_succ, emitted_zero, List.nil_append]
  rfl

theorem emitted_split (m : Machine) {n k : Nat} (hk : n ≤ k) :
    m.emitted k = m.emitted n ++ (m.steps n).emitted (k - n) := by
  rw [← emitted_add, Nat.add_sub_cancel' hk]

theorem emitted_eq_nil {m : Machine} (h : m.isFinished = true) (n : Nat) : m.emitted n = [] := by
  have hsilent : m.step.2.event? = none := by
    rw [step, if_pos h]
    rfl
  induction n with
  | zero => rfl
  | succ n ih =>
    rw [emitted_succ, ih, steps_of_finished h, hsilent]
    rfl

theorem emitted_of_finished {m : Machine} {n k : Nat} (h : (m.steps n).isFinished = true)
    (hk : n ≤ k) : m.emitted k = m.emitted n := by
  rw [m.emitted_split hk, emitted_eq_nil h, List.append_nil]

theorem emitted_mono (m : Machine) {n k : Nat} (hk : n ≤ k) : m.emitted n <+: m.emitted k := by
  rw [m.emitted_split hk]
  exact List.prefix_append _ _

/-- The first `n` steps do not overflow. -/
def Calm (m : Machine) (n : Nat) : Prop := ∀ k < n, ∀ o, (m.steps k).step.2 ≠ .overflow o

theorem Calm.succ {m : Machine} {n : Nat} (h : m.Calm n)
    (hs : ∀ o, (m.steps n).step.2 ≠ .overflow o) : m.Calm (n + 1) := by
  intro k hk o
  rcases Nat.lt_succ_iff_lt_or_eq.mp hk with hk | rfl
  · exact h k hk o
  · exact hs o

theorem Calm.of_finished {m : Machine} {n : Nat} (h : m.Calm n)
    (hf : (m.steps n).isFinished = true) (k : Nat) : m.Calm k := by
  intro i _ o
  rcases Nat.lt_or_ge i n with hlt | hge
  · exact h i hlt o
  · rw [← Nat.add_sub_cancel' hge, steps_add, steps_of_finished hf, step, if_pos hf]
    simp

end Machine

end Ostinato
