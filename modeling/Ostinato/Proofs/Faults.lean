import Ostinato.Proofs.Emission

/-!
# Faults are atomic

An instruction that is refused leaves no trace but its fault: whichever of the machine's checks it
fails, the clock's or the counters', nothing has been changed before it (`Stepped.fault_frame`). And a
machine that has finished, for this or another reason, stays as it is until it is reset
(`after_of_finished`). Nothing is assumed of the program or of the machine, which may hold any
statements, any instruction pointer and any table of counters.
-/

namespace Ostinato.Machine

section
variable {m m' : Machine}

/-- What a fault changes. An instruction that was fetched counts as executed. -/
theorem Stepped.fault_frame {f : Fault} (hs : Stepped m m' (.fault f)) :
    ∃ n, m' = { m with state := .faulted, fault := some f, executed := n } := by
  cases hs with
  | lost => exact ⟨m.executed, rfl⟩
  | refused => exact ⟨m.executed + 1, rfl⟩

theorem move_of_finished (hm : m.isFinished = true) {a : Move} (ha : a ≠ .reset) : m.move a = m := by
  cases a with
  | step => exact m.steps_of_finished hm 1
  | cancel => exact if_pos hm
  | reset => exact absurd rfl ha

theorem hear_of_finished (hm : m.isFinished = true) (es : List Event) {a : Move} (ha : a ≠ .reset) :
    m.hear es a = es := by
  cases a with
  | step =>
    have hsilent := m.emitted_eq_nil hm 1
    rw [emitted_succ, emitted_zero, List.nil_append, steps_zero] at hsilent
    rw [hear, hsilent, List.append_nil]
  | cancel => rfl
  | reset => exact absurd rfl ha

theorem after_of_finished (hm : m.isFinished = true) (es : List Event) {moves : List Move}
    (hmoves : .reset ∉ moves) : m.after moves = m ∧ m.emissions es moves = es := by
  induction moves with
  | nil => exact ⟨rfl, rfl⟩
  | cons a rest ih =>
    have ha : a ≠ .reset := fun h => hmoves (h ▸ List.mem_cons_self)
    obtain ⟨hafter, hemissions⟩ := ih fun h => hmoves (List.mem_cons_of_mem a h)
    constructor
    · show (m.move a).after rest = m
      rw [move_of_finished hm ha, hafter]
    · show (m.move a).emissions (m.hear es a) rest = es
      rw [move_of_finished hm ha, hear_of_finished hm es ha, hemissions]

end

/-- **Faults are atomic.** Whatever the program and the state of the machine, a step that faults emits
nothing and leaves the instruction pointer, the clock and the counters as they are. The machine is
faulted then, with that fault, and stays so whatever is done, until it is reset. -/
theorem faults_are_atomic (m : Machine) {f : Fault} (hf : m.step.2 = .fault f) :
    (m.step.1.program = m.program ∧ m.step.1.ip = m.ip ∧ m.step.1.clock = m.clock ∧
        m.step.1.counters = m.counters) ∧
      (m.step.1.state = .faulted ∧ m.step.1.fault = some f) ∧
      ∀ moves, .reset ∉ moves →
        m.after (.step :: moves) = m.step.1 ∧
          (∀ es, m.emissions es (.step :: moves) = es) ∧
          (m.after (.step :: moves)).step.2 = .halt m.clock.now ∧
          (m.after (.step :: moves)).reset = load m.program := by
  obtain ⟨n, hframe⟩ : ∃ n, m.step.1 =
      { m with state := .faulted, fault := some f, executed := n } := by
    have hs := m.stepped
    rw [hf] at hs
    exact hs.fault_frame
  have hfinished : m.step.1.isFinished = true := by
    rw [hframe]
    rfl
  refine ⟨by rw [hframe]; exact ⟨rfl, rfl, rfl, rfl⟩, by rw [hframe]; exact ⟨rfl, rfl⟩,
    fun moves hmoves => ?_⟩
  have hafter : m.after (.step :: moves) = m.step.1 := (after_of_finished hfinished [] hmoves).1
  refine ⟨hafter, fun es => ?_, ?_, ?_⟩
  · have hemissions := (after_of_finished hfinished (m.hear es .step) hmoves).2
    have hheard : m.hear es .step = es := by
      rw [hear, hf]
      exact List.append_nil es
    rw [hheard] at hemissions
    exact (congrArg (m.step.1.emissions · moves) hheard).trans hemissions
  · rw [hafter, step, if_pos hfinished, hframe]
  · rw [hafter, reset, hframe]

/-- A machine in the midst of a run, with a counter that somebody has spoilt. -/
def spoilt : Machine where
  program := {
    instructions := #[.send ⟨true, 0, 60, 90, none, ⟨1, 1⟩⟩, .jump ⟨"again", some 2, some 0, ⟨2, 1⟩⟩]
    labels := [("again", 0)]
    jumpSites := [⟨1, "again", 0, some 2⟩] }
  ip := 1
  state := .running
  counters := [(1, -1)]
  executed := 3

theorem faults_are_atomic_spoilt :
    spoilt.step.2 = .fault ⟨.negativeCounter (-1), some 1⟩ ∧ spoilt.step.1.ip = 1 ∧
      spoilt.step.1.counters = [(1, -1)] ∧
      spoilt.after [.step, .cancel, .step, .step] = spoilt.step.1 := by
  have hfault : spoilt.step.2 = .fault ⟨.negativeCounter (-1), some 1⟩ := by decide
  obtain ⟨⟨-, hip, -, hcounters⟩, -, hlater⟩ := faults_are_atomic spoilt hfault
  exact ⟨hfault, hip, hcounters, (hlater [.cancel, .step, .step] (by decide)).1⟩

end Ostinato.Machine
