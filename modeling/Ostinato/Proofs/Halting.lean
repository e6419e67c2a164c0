import Mathlib.Algebra.Order.BigOperators.Group.List
import Ostinato.Proofs.Drivers
import Ostinato.Proofs.Safety

/-!
# Bounded jumps run out

Where jumps go is of no help to show that a program halts: they may cross each other, enter blocks
and go forward or back. What counts is that a jump which has been taken as often as its bound says is
exhausted for good. A machine's `budget` is the number of jumps that it can still take. A jump that is
taken costs one of the budget and buys at most one more pass over the program, and every other
instruction moves the pointer on. So `potential`, a pass for each jump left and the rest of the
current one, falls in each step, and what a fresh machine has of it bounds the run.
-/

namespace Ostinato

def Program.Bounded (p : Program) : Prop := ∀ site ∈ p.jumpSites, site.bound.isSome

instance (p : Program) : Decidable p.Bounded := List.decidableBAll _ _

def Program.jumpBudget (p : Program) : Int := (p.jumpSites.map fun s => s.bound.getD 0).sum

namespace Counters

def left (cs : Counters) (s : JumpSite) : Int := s.bound.getD 0 - (cs.get? s.index).getD 0

def budget (cs : Counters) (sites : List JumpSite) : Int := (sites.map cs.left).sum

theorem left_put_of_ne (cs : Counters) {s : JumpSite} {index count : Int} (h : s.index ≠ index) :
    (cs.put index count).left s = cs.left s := by
  rw [left, get?_put, if_neg h, left]

theorem budget_put_of_not_mem (cs : Counters) {sites : List JumpSite} {index count : Int}
    (h : index ∉ sites.map (·.index)) : (cs.put index count).budget sites = cs.budget sites := by
  unfold budget
  refine congrArg List.sum (List.map_congr_left fun s hs => ?_)
  apply left_put_of_ne
  rintro rfl
  exact h (List.mem_map_of_mem hs)

theorem budget_put {cs : Counters} {sites : List JumpSite} {index n : Int}
    (hnodup : (sites.map (·.index)).Nodup) (hmem : index ∈ sites.map (·.index))
    (hn : cs.get? index = some n) :
    (cs.put index (n + 1)).budget sites = cs.budget sites - 1 := by
  induction sites with
  | nil => cases hmem
  | cons s rest ih =>
    rw [List.map_cons, List.nodup_cons] at hnodup
    have hcons : ∀ cs : Counters, cs.budget (s :: rest) = cs.left s + cs.budget rest := fun cs => by
      rw [budget, List.map_cons, List.sum_cons, budget]
    rw [hcons, hcons]
    rw [List.map_cons, List.mem_cons] at hmem
    rcases hmem with rfl | hmem
    · rw [budget_put_of_not_mem cs hnodup.1, left, get?_put, if_pos rfl, left, hn]
      simp only [Option.getD_some]
      omega
    · have hne : s.index ≠ index := by
        rintro rfl
        exact hnodup.1 hmem
      rw [left_put_of_ne cs hne, ih hnodup.2 hmem]
      omega

theorem budget_start (sites : List JumpSite) :
    (start sites).budget sites = (sites.map fun s => s.bound.getD 0).sum := by
  unfold budget
  refine congrArg List.sum (List.map_congr_left fun s hs => ?_)
  rw [left, get?_start (List.mem_map_of_mem hs), Option.getD_some, Int.sub_zero]

end Counters

namespace Machine

def budget (m : Machine) : Int := m.counters.budget m.program.jumpSites

/-- One pass over the program for each jump that is left, and what is left of this pass. -/
def potential (m : Machine) : Int :=
  m.budget * m.program.length + (m.program.length - m.ip)

theorem load_potential (p : Program) :
    (load p).potential = (1 + p.jumpBudget) * p.length := by
  have hbudget : (load p).budget = p.jumpBudget := Counters.budget_start p.jumpSites
  have hip : (load p).ip = 0 := rfl
  have hprogram : (load p).program = p := rfl
  rw [potential, hbudget, hip, hprogram, Int.add_mul]
  omega

section
variable {m : Machine}

theorem Calm.cons {n : Nat} (hn : m.step.1.Calm n) (h : ∀ o, m.step.2 ≠ .overflow o) :
    m.Calm (n + 1) := by
  intro k hk o
  cases k with
  | zero => exact h o
  | succ k => exact hn k (by omega) o

namespace Sound
variable (h : m.Sound)
include h

theorem left_nonneg {s : JumpSite} (hs : s ∈ m.program.jumpSites) (hb : s.bound.isSome) :
    0 ≤ m.counters.left s := by
  obtain ⟨pos, hat⟩ := h.program.mem_jumpSites.mp hs
  obtain ⟨n, hn, -, hle⟩ := h.counter hat
  obtain ⟨b, hbound⟩ := Option.isSome_iff_exists.mp hb
  have := hle b hbound
  rw [Counters.left, hn, hbound, Option.getD_some, Option.getD_some]
  omega

theorem budget_nonneg (hb : m.program.Bounded) : 0 ≤ m.budget := by
  apply List.sum_nonneg
  intro k hk
  obtain ⟨s, hs, rfl⟩ := List.mem_map.mp hk
  exact h.left_nonneg hs (hb s hs)

theorem potential_nonneg (hb : m.program.Bounded) : 0 ≤ m.potential := by
  have hbudget := h.budget_nonneg hb
  have hpasses : 0 ≤ m.budget * m.program.length := Int.mul_nonneg hbudget (Int.natCast_nonneg _)
  have := h.pointer.2
  unfold potential
  omega

/-- The step lemma: an instruction that is executed costs potential. -/
theorem potential_step {s : Statement} (hi : m.instruction? = some s)
    (hcalm : ∀ o, m.step.2 ≠ .overflow o) : m.step.1.potential + 1 ≤ m.potential := by
  have hnext := next_pointer hi
  rcases h.step_cases hi with ⟨-, c, hm⟩ | ⟨-, o, ho⟩ | ⟨j, t, cs, taken, rfl, ht, htake, hm⟩
  · rw [hm]
    show m.budget * m.program.length + (m.program.length - (m.ip + 1)) + 1 ≤ m.potential
    unfold potential
    omega
  · exact absurd ho (hcalm o)
  · have hat := (instruction?_eq_some.mp hi).2
    obtain ⟨n, hn, hn0, -⟩ := h.counter hat
    rw [hm]
    by_cases ho : Counters.Open j.count n
    · rw [Counters.take_open hn hn0 ho] at htake
      cases htake
      obtain ⟨⟨t', ht', ht0, -⟩, -⟩ := h.playable hi
      rw [ht] at ht'
      cases ht'
      have hcost : (m.counters.put m.ip (n + 1)).budget m.program.jumpSites = m.budget - 1 :=
        Counters.budget_put h.program.indices_nodup (h.program.mem_indices.mpr ⟨j, hat⟩) hn
      show (m.counters.put m.ip (n + 1)).budget m.program.jumpSites * m.program.length +
        (m.program.length - t) + 1 ≤ m.potential
      rw [hcost, Int.sub_mul, Int.one_mul]
      unfold potential
      omega
    · rw [Counters.take_closed hn hn0 ho] at htake
      cases htake
      show m.budget * m.program.length + (m.program.length - (m.ip + 1)) + 1 ≤ m.potential
      unfold potential
      omega

theorem goes_on (hf : m.isFinished = false) (hend : m.ip ≠ m.program.length) :
    m.step.1.isFinished = false := by
  refine m.stepped.goes_on (fun t ht => ?_) (h.stepped_ne_fault m.stepped)
  have hs := m.stepped
  rw [ht] at hs
  generalize m.step.1 = m' at hs
  cases hs with
  | finished hfin =>
    rw [hf] at hfin
    cases hfin
  | ended _ he => exact hend he

/-- The run lemma: a machine comes to the end of its program, or to a number that it cannot convert,
before its potential is used up. -/
theorem runs_out (hb : m.program.Bounded) (hf : m.isFinished = false) :
    ∃ n : Nat, m.Calm n ∧ (∀ k ≤ n, (m.steps k).isFinished = false) ∧ n ≤ m.potential ∧
      ((∃ o, (m.steps n).step.2 = .overflow o) ∨ (m.steps n).ip = m.program.length) := by
  induction hpot : m.potential.toNat using Nat.strong_induction_on generalizing m with
  | _ pot ih =>
    have hnow : m.Calm 0 ∧ (∀ k ≤ 0, (m.steps k).isFinished = false) ∧ (0 : Nat) ≤ m.potential := by
      refine ⟨fun k hk => absurd hk (Nat.not_lt_zero k), fun k hk => ?_, h.potential_nonneg hb⟩
      rw [Nat.le_zero.mp hk]
      exact hf
    by_cases hend : m.ip = m.program.length
    · exact ⟨0, hnow.1, hnow.2.1, hnow.2.2, .inr hend⟩
    by_cases hover : ∃ o, m.step.2 = .overflow o
    · exact ⟨0, hnow.1, hnow.2.1, hnow.2.2, .inl hover⟩
    have hcalm : ∀ o, m.step.2 ≠ .overflow o := fun o he => hover ⟨o, he⟩
    have hprogram : m.step.1.program = m.program := m.stepped.program
    have hsound : m.step.1.Sound := h.of_stepped m.stepped
    have hbounded : m.step.1.program.Bounded := by rwa [hprogram]
    obtain ⟨s, hs⟩ := Option.ne_none_iff_exists'.mp (h.not_lost hend)
    have hcost := h.potential_step (instruction?_eq_some.mpr ⟨hf, hs⟩) hcalm
    have hpos := hsound.potential_nonneg hbounded
    obtain ⟨n, hn, hgoing, hle, hlast⟩ :=
      ih m.step.1.potential.toNat (by omega) hsound hbounded (h.goes_on hf hend) rfl
    rw [hprogram] at hlast
    refine ⟨n + 1, hn.cons hcalm, fun k hk => ?_, by omega, hlast⟩
    cases k with
    | zero => exact hf
    | succ k => exact hgoing k (by omega)

end Sound

end

theorem step_of_end {m : Machine} (hf : m.isFinished = false) (hend : m.ip = m.program.length) :
    m.step = ({ m with state := .halted }, .halt m.clock.now) := by
  rw [step, if_neg (by rw [hf]; exact Bool.false_ne_true)]
  exact if_pos hend

/-- **Programs with only bounded jumps halt.** However its jumps are nested or cross each other, a
compiled program whose jumps are all bounded comes to its end after some number of steps, unless one
of them meets a number that cannot be converted. Up to there it executes at most one pass over the
program, and one more for each time that a jump may be taken. -/
theorem compile_halts {text : String} {name : Option String} {p : Program}
    (h : compile text name = .ok p) (hb : p.Bounded) :
    ∃ n, (load p).Calm n ∧ ((load p).steps n).executed = n ∧
      (n : Int) ≤ (1 + p.jumpBudget) * p.length ∧
      ((∃ o, ((load p).steps n).step.2 = .overflow o) ∨
        ((load p).steps n).step.2 = .halt ((load p).steps n).clock.now ∧
          ∀ k, n < k → ((load p).steps k).state = .halted ∧ ((load p).steps k).executed = n) := by
  have hsound := load_sound (compile_wellFormed h)
  obtain ⟨n, hcalm, hgoing, hle, hlast⟩ := hsound.runs_out hb rfl
  have hexecuted : ((load p).steps n).executed = n := by
    rw [executed_steps _ hgoing]
    exact Nat.zero_add n
  rw [load_potential] at hle
  refine ⟨n, hcalm, hexecuted, hle, hlast.imp_right fun hend => ?_⟩
  have hprogram : ((load p).steps n).program = p := after_program _ _
  have hstep := step_of_end (hgoing n (Nat.le_refl n)) (by rw [hprogram]; exact hend)
  refine ⟨by rw [hstep], fun k hk => ?_⟩
  have hhalted : (load p).steps (n + 1) = { (load p).steps n with state := .halted } := by
    rw [steps_succ_last, hstep]
  obtain ⟨d, rfl⟩ := Nat.exists_eq_add_of_lt hk
  rw [Nat.add_right_comm, steps_add, hhalted, steps_of_finished rfl]
  exact ⟨rfl, hexecuted⟩

theorem compile_halts_sample : compile Source.sampleText none = .ok sampleProgram ∧
    sampleProgram.Bounded ∧ ∃ n : Nat, n ≤ (1 + 3) * 6 ∧
      ((load sampleProgram).steps n).executed = n ∧
      ((load sampleProgram).steps (n + 1)).state = .halted := by
  have hbounded : sampleProgram.Bounded := by decide
  have hbound : (1 + sampleProgram.jumpBudget) * sampleProgram.length = (1 + 3) * 6 := by decide
  have hcalm : ∀ n ≤ 24, ((load sampleProgram).steps n).step.2.overflow? = none := by
    decide +kernel
  obtain ⟨n, -, hexecuted, hle, ⟨o, ho⟩ | ⟨-, hhalted⟩⟩ := compile_halts compile_sample hbounded
  · exact absurd ho (Step.ne_overflow (hcalm n (by omega)) o)
  · exact ⟨compile_sample, hbounded, n, by omega, hexecuted, (hhalted (n + 1) (by omega)).1⟩

end Machine

end Ostinato
