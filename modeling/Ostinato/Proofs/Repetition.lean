import Ostinato.Proofs.Safety

/-!
# Repetition counts are exact

A jump is taken as often as its bound says and not once more, counted over the whole run since the
last reset and however its target is reached. `executions` counts the executions of an instruction
along a run. The invariant is that the counter of a jump shows `Counters.taken`, the smaller of
that count and the bound; the rest of `Repeats` follows from it.
-/

namespace Ostinato.Machine

def Executes (m : Machine) (i : Int) : Prop := m.ip = i ∧ m.instruction?.isSome = true

instance (m : Machine) (i : Int) : Decidable (m.Executes i) :=
  inferInstanceAs (Decidable (_ ∧ _))

/-- The executions of instruction `i` since the last reset, if there were `k` before the move. -/
def tally (m : Machine) (i : Int) (k : Nat) : Move → Nat
  | .step => if m.Executes i then k + 1 else k
  | .cancel => k
  | .reset => 0

def executions (m : Machine) (i : Int) (k : Nat) : List Move → Nat
  | [] => k
  | a :: rest => executions (m.move a) i (m.tally i k a) rest

theorem executions_append (m : Machine) (i : Int) (k : Nat) (moves later : List Move) :
    m.executions i k (moves ++ later) =
      (m.after moves).executions i (m.executions i k moves) later := by
  induction moves generalizing m k with
  | nil => rfl
  | cons a rest ih => exact ih (m.move a) (m.tally i k a)

theorem le_executions {m : Machine} {i : Int} {k : Nat} {later : List Move}
    (h : .reset ∉ later) : k ≤ m.executions i k later := by
  induction later generalizing m k with
  | nil => exact Nat.le_refl k
  | cons a rest ih =>
    simp only [List.mem_cons, not_or] at h
    have hk : k ≤ m.tally i k a := by
      cases a with
      | step =>
        simp only [tally]
        split <;> omega
      | cancel => exact Nat.le_refl k
      | reset => exact absurd rfl h.1
    exact Nat.le_trans hk (ih h.2)

/-- What is to be said of a jump site when its jump has been executed `k` times. -/
structure Repeats (m : Machine) (site : JumpSite) (k : Nat) : Prop where
  /-- A jump that does not end a loop goes to the start of its label. -/
  labelled : (∃ pos, site.label = Link.loopName pos) ∨
    m.program.labels.lookup site.label = some site.target
  count : m.counters.get? site.index = some (Counters.taken site.bound k)
  /-- The next execution takes the jump if there is no bound or the bound is not reached. -/
  jumps : m.Executes site.index →
    m.step.1.ip = if Counters.Open site.bound k then site.target else site.index + 1
  /-- Nothing else changes the counter, but for a reset. -/
  frame : ∀ a, a ≠ .reset → (a = .step → ¬m.Executes site.index) →
    (m.move a).counters.get? site.index = m.counters.get? site.index
  grows : ∀ later, .reset ∉ later → ∃ n, (m.after later).counters.get? site.index = some n ∧
    Counters.taken site.bound k ≤ n
  /-- A jump whose bound is reached is never taken again. -/
  exhausted : ¬Counters.Open site.bound k → ∀ later, .reset ∉ later →
    (m.after later).counters.get? site.index = some (Counters.taken site.bound k) ∧
      ((m.after later).Executes site.index → (m.after later).step.1.ip = site.index + 1)

/-! ## One move -/

section
variable {m : Machine} {i : Int}

/-- No other instruction changes the counter of a jump. -/
theorem Stepped.counter_frame {m' : Machine} {out : Step} (h : Stepped m m' out)
    (hi : ¬m.Executes i) : m'.counters.get? i = m.counters.get? i := by
  cases h with
  | jumped hj _ _ hc =>
    refine Counters.get?_take hc fun he => hi ⟨he.symm, ?_⟩
    rw [hj]
    rfl
  | _ => rfl

theorem move_frame {a : Move} (ha : a ≠ .reset) (hi : a = .step → ¬m.Executes i) :
    (m.move a).counters.get? i = m.counters.get? i := by
  cases a with
  | step => exact m.stepped.counter_frame (hi rfl)
  | cancel =>
    simp only [move, Machine.cancel]
    split <;> rfl
  | reset => exact absurd rfl ha

theorem Sound.step_jump (h : m.Sound) {j : Jump} {t n : Int}
    (hj : m.program.at? i = some (.jump j)) (ht : j.target = some t)
    (hn : m.counters.get? i = some n) (he : m.Executes i) :
    (Counters.Open j.count n → m.step.1.ip = t ∧ m.step.1.counters.get? i = some (n + 1)) ∧
      (¬Counters.Open j.count n → m.step.1.ip = i + 1 ∧ m.step.1.counters.get? i = some n) := by
  obtain ⟨rfl, hsome⟩ := he
  have hi : m.instruction? = some (.jump j) := by
    obtain ⟨s, hs⟩ := Option.isSome_iff_exists.mp hsome
    have hat := (instruction?_eq_some.mp hs).2
    rw [hs, ← hat, hj]
  have hn0 := (h.counts m.ip j n hj hn).1
  rcases h.step_cases hi with ⟨hs, -⟩ | ⟨hs, -⟩ | ⟨j', t', cs, taken, hs, ht', hc, hm'⟩
  · cases hs
  · cases hs
  · cases hs
    rw [ht] at ht'
    cases ht'
    rw [hm']
    refine ⟨fun ho => ?_, fun ho => ?_⟩
    · rw [Counters.take_open hn hn0 ho] at hc
      cases hc
      exact ⟨rfl, by rw [Counters.get?_put, if_pos rfl]⟩
    · rw [Counters.take_closed hn hn0 ho] at hc
      cases hc
      exact ⟨rfl, hn⟩

theorem load_count {p : Program} (hp : p.WellFormed) {j : Jump}
    (hj : p.at? i = some (.jump j)) :
    (load p).counters.get? i = some (Counters.taken j.count 0) := by
  have h0 : (Counters.start p.jumpSites).get? i = some 0 :=
    Counters.get?_start (hp.mem_indices.mpr ⟨j, hj⟩)
  have hb := (hp.playable _ (Program.mem_of_at? hj)).2
  rw [load, h0, Option.some.injEq]
  unfold Counters.taken
  split
  · rfl
  · rename_i b hcount
    have := hb b hcount
    omega

/-- The step lemma: one move keeps the counter in line with the executions. -/
theorem Sound.count_move (h : m.Sound) {j : Jump} {k : Nat}
    (hj : m.program.at? i = some (.jump j))
    (hk : m.counters.get? i = some (Counters.taken j.count k)) (a : Move) :
    (m.move a).counters.get? i = some (Counters.taken j.count (m.tally i k a)) := by
  cases a with
  | step =>
    by_cases he : m.Executes i
    · obtain ⟨⟨t, ht, -⟩, -⟩ := h.program.playable _ (Program.mem_of_at? hj)
      obtain ⟨hopen, hclosed⟩ := h.step_jump hj ht hk he
      rw [Counters.open_taken] at hopen hclosed
      simp only [move, tally, if_pos he, Counters.taken_succ]
      by_cases ho : Counters.Open j.count k
      · rw [if_pos ho]
        exact (hopen ho).2
      · rw [if_neg ho]
        exact (hclosed ho).2
    · simp only [tally, if_neg he]
      rw [move_frame (by simp) fun _ => he, hk]
  | cancel =>
    rw [move_frame (by simp) (by simp), hk]
    rfl
  | reset => exact load_count h.program hj

end

/-! ## Whole runs -/

/-- The run lemma. -/
theorem Sound.count_after {m : Machine} (h : m.Sound) {i : Int} {j : Jump} {k : Nat}
    (hj : m.program.at? i = some (.jump j))
    (hk : m.counters.get? i = some (Counters.taken j.count k)) (moves : List Move) :
    (m.after moves).counters.get? i =
      some (Counters.taken j.count (m.executions i k moves)) := by
  induction moves generalizing m k with
  | nil => exact hk
  | cons a rest ih =>
    exact ih (h.after [a]) (by rw [after_program, hj]) (h.count_move hj hk a)

/-- **Repetition counts are exact.** In every run of a compiled program, each jump site is as
`Repeats` says for the number of times its jump has been executed since the last reset. -/
theorem compile_repeats {text : String} {name : Option String} {p : Program}
    (h : compile text name = .ok p) {site : JumpSite} (hsite : site ∈ p.jumpSites)
    (moves : List Move) :
    Repeats ((load p).after moves) site ((load p).executions site.index 0 moves) := by
  have hp := compile_wellFormed h
  obtain ⟨pos, hj⟩ := hp.mem_jumpSites.mp hsite
  have hsound := (load_sound hp).after
  have hcount := (load_sound hp).count_after hj (load_count hp hj)
  have hjumps : ∀ moves, ((load p).after moves).Executes site.index →
      ((load p).after moves).step.1.ip =
        if Counters.Open site.bound ((load p).executions site.index 0 moves) then site.target
        else site.index + 1 := by
    intro moves he
    have hj' := hj
    rw [← show ((load p).after moves).program = p from after_program _ _] at hj'
    obtain ⟨hopen, hclosed⟩ := (hsound moves).step_jump hj' rfl (hcount moves) he
    rw [Counters.open_taken] at hopen hclosed
    split
    · rename_i ho
      exact (hopen ho).1
    · rename_i ho
      exact (hclosed ho).1
  refine ⟨?_, hcount moves, hjumps moves, fun a => move_frame, fun later hl => ?_,
    fun ho later hl => ?_⟩
  · rw [after_program]
    exact hp.labelled _ (Program.mem_of_at? hj)
  · rw [← after_append, hcount, executions_append]
    exact ⟨_, rfl, Counters.taken_mono (le_executions hl)⟩
  · obtain ⟨ho', he⟩ := Counters.not_open_mono (le_executions hl) ho
    rw [← executions_append] at ho' he
    rw [← after_append, hcount, he]
    refine ⟨rfl, fun hex => ?_⟩
    rw [hjumps _ hex, if_neg ho']

/-- The inner jump of the sample has been executed once after four steps. -/
theorem compile_repeats_sample : ⟨3, "loop@3", 0, some 2⟩ ∈ sampleProgram.jumpSites ∧
    (load sampleProgram).executions 3 0 [.step, .step, .step, .step] = 1 ∧
    Repeats ((load sampleProgram).after [.step, .step, .step, .step]) ⟨3, "loop@3", 0, some 2⟩
      ((load sampleProgram).executions 3 0 [.step, .step, .step, .step]) :=
  ⟨by decide, by decide +kernel, compile_repeats compile_sample (by decide) _⟩

end Ostinato.Machine
