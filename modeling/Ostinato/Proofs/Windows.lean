import Ostinato.Machine.Window
import Ostinato.Proofs.Onward

/-!
# Windows fit together

A search that is not limited otherwise runs its machine up to the first state that is past the
window, and is over there unless a step fails before (`run_eq_done_iff`). What it finds are the events
of those steps that lie in the window. A machine that is past a window emits nothing more that lies
in it, so they are all the events of the further run that do, and a window may be cut in two
anywhere.
-/

namespace Ostinato.Machine

open Binary64

/-! ## Past a window -/

/-- Whether there is nothing left to be done before some time. -/
def isPast (m : Machine) (stop : Binary64) : Bool :=
  m.isFinished || !m.clock.now.lt stop

/-- The machine gets past a time in `k` steps, not in fewer, and none of them fails. -/
structure GetsPast (m : Machine) (stop : Binary64) (k : Nat) : Prop where
  before : ∀ i < k, (m.steps i).isPast stop = false
  sound : ∀ i < k, (∀ f, (m.steps i).step.2 ≠ .fault f) ∧ ∀ o, (m.steps i).step.2 ≠ .overflow o
  past : (m.steps k).isPast stop = true

def reports (m : Machine) (j : Journal) : Nat → Journal
  | 0 => j
  | n + 1 => m.step.1.reports (m.reportStep m.step j) n

section
variable {m : Machine} {stop : Binary64} {j : Journal} {k : Nat}

theorem isPast_iff : m.isPast stop = true ↔ m.isFinished = true ∨ m.clock.now.lt stop = false := by
  simp [isPast]

theorem reports_add (m : Machine) (j : Journal) (n k : Nat) :
    m.reports j (n + k) = (m.steps n).reports (m.reports j n) k := by
  induction n generalizing m j with
  | zero => rw [Nat.zero_add]; rfl
  | succ n ih => rw [Nat.add_right_comm, reports, ih]; rfl

theorem getsPast_zero : m.GetsPast stop 0 ↔ m.isPast stop = true :=
  ⟨fun h => h.past, fun h => ⟨by simp, by simp, h⟩⟩

theorem getsPast_succ : m.GetsPast stop (k + 1) ↔ m.isPast stop = false ∧
    ((∀ f, m.step.2 ≠ .fault f) ∧ ∀ o, m.step.2 ≠ .overflow o) ∧ m.step.1.GetsPast stop k := by
  constructor
  · intro h
    refine ⟨h.before 0 (Nat.succ_pos k), h.sound 0 (Nat.succ_pos k), ?_, ?_, h.past⟩
    · exact fun i hi => h.before (i + 1) (Nat.succ_lt_succ hi)
    · exact fun i hi => h.sound (i + 1) (Nat.succ_lt_succ hi)
  · rintro ⟨hbefore, hsound, h⟩
    refine ⟨fun i hi => ?_, fun i hi => ?_, h.past⟩
    · cases i with
      | zero => exact hbefore
      | succ i => exact h.before i (Nat.lt_of_succ_lt_succ hi)
    · cases i with
      | zero => exact hsound
      | succ i => exact h.sound i (Nat.lt_of_succ_lt_succ hi)

theorem GetsPast.unique {k' : Nat} (h : m.GetsPast stop k) (h' : m.GetsPast stop k') : k = k' := by
  rcases Nat.lt_trichotomy k k' with hlt | heq | hlt
  · have hbefore := h'.before k hlt
    rw [h.past] at hbefore
    cases hbefore
  · exact heq
  · have hbefore := h.before k' hlt
    rw [h'.past] at hbefore
    cases hbefore

end

/-! ## Searches -/

namespace Window

def IsOpen (w : Window) : Prop := w.maxSteps = none ∧ w.take = none

/-- A search that has made some more steps. -/
def onward (w : Window) (s : Search) (k : Nat) : Search where
  machine := s.machine.steps k
  journal := s.machine.reports s.journal k
  steps := s.steps + k
  found := ((s.machine.emitted k).filter w.holds).reverse ++ s.found

section
variable {w : Window} {s s' : Search} {fuel : Nat}

def next (w : Window) (s : Search) : Search where
  machine := s.machine.step.1
  journal := s.machine.reportStep s.machine.step s.journal
  steps := s.steps + 1
  found := (s.machine.step.2.event?.toList.filter w.holds).reverse ++ s.found

theorem onward_succ (w : Window) (s : Search) (k : Nat) :
    w.onward s (k + 1) = w.onward (w.next s) k := by
  have hsteps : s.steps + (k + 1) = s.steps + 1 + k := by omega
  simp only [onward, next, emitted_succ_first, List.filter_append, List.reverse_append,
    List.append_assoc, hsteps]
  rfl

theorem run_succ (hw : w.IsOpen) (fuel : Nat) (s : Search) :
    w.run (fuel + 1) s =
      if s.machine.isPast w.stop then (s, .done)
      else match s.machine.step.2 with
        | .fault f => (w.next s, .fault f)
        | .overflow o => (w.next s, .overflow o)
        | _ => w.run fuel (w.next s) := by
  obtain ⟨hsteps, htake⟩ := hw
  have hfull : w.isFull s = false := by rw [isFull, htake]
  have hout : w.outOfSteps? s = none := by rw [outOfSteps?, hsteps]
  rw [run, hfull, if_neg Bool.false_ne_true, hout]
  show (if s.machine.isPast w.stop then _ else _) = _
  split
  · rfl
  · dsimp only
    cases he : s.machine.step.2 with
    | emit e =>
      by_cases hholds : w.holds e
      · simp [next, he, Step.event?, hholds]
      · simp [next, he, Step.event?, hholds]
    | _ => simp [next, he, Step.event?]

/-- The run lemma. -/
theorem run_eq_done_iff (hw : w.IsOpen) :
    w.run fuel s = (s', .done) ↔
      ∃ k < fuel, s.machine.GetsPast w.stop k ∧ s' = w.onward s k := by
  induction fuel generalizing s with
  | zero => simp [run]
  | succ fuel ih =>
    rw [run_succ hw]
    by_cases hpast : s.machine.isPast w.stop = true
    · rw [if_pos hpast]
      constructor
      · intro h
        cases h
        exact ⟨0, Nat.succ_pos fuel, getsPast_zero.mpr hpast, rfl⟩
      · rintro ⟨k, -, hk, rfl⟩
        cases (getsPast_zero.mpr hpast).unique hk
        rfl
    · have hnot : s.machine.isPast w.stop = false := by simpa using hpast
      rw [if_neg hpast]
      -- A step that does not fail leaves a search that takes one step less.
      have hgoes : ((∀ f, s.machine.step.2 ≠ .fault f) ∧ ∀ o, s.machine.step.2 ≠ .overflow o) →
          (w.run fuel (w.next s) = (s', .done) ↔
            ∃ k < fuel + 1, s.machine.GetsPast w.stop k ∧ s' = w.onward s k) := by
        intro hsound
        rw [ih]
        constructor
        · rintro ⟨k, hk, hgets, rfl⟩
          exact ⟨k + 1, Nat.succ_lt_succ hk, getsPast_succ.mpr ⟨hnot, hsound, hgets⟩,
            (w.onward_succ s k).symm⟩
        · rintro ⟨k, hk, hgets, rfl⟩
          cases k with
          | zero => exact absurd (getsPast_zero.mp hgets) hpast
          | succ k =>
            obtain ⟨-, -, hgets⟩ := getsPast_succ.mp hgets
            exact ⟨k, Nat.lt_of_succ_lt_succ hk, hgets, w.onward_succ s k⟩
      have hfails : ¬((∀ f, s.machine.step.2 ≠ .fault f) ∧ ∀ o, s.machine.step.2 ≠ .overflow o) →
          ¬∃ k < fuel + 1, s.machine.GetsPast w.stop k ∧ s' = w.onward s k := by
        rintro hsound ⟨k, -, hgets, -⟩
        cases k with
        | zero => exact hpast (getsPast_zero.mp hgets)
        | succ k => exact hsound (getsPast_succ.mp hgets).2.1
      cases he : s.machine.step.2 with
      | fault f => exact iff_of_false nofun (hfails (by simp [he]))
      | overflow o => exact iff_of_false nofun (hfails (by simp [he]))
      | _ => exact hgoes (by simp [he])

end

end Window

/-! ## What a search finds -/

section
variable {m m' : Machine} {w : Window} {j j' : Journal} {es : List Event}

/-- A search comes to its end if and only if its machine gets past the window. -/
theorem eventsIn_done_iff (hw : w.IsOpen) :
    (∃ fuel, m.eventsIn j w fuel = (m', j', es, .done)) ↔
      ∃ k, m.GetsPast w.stop k ∧ m' = m.steps k ∧ j' = m.reports j k ∧
        es = (m.emitted k).filter w.holds := by
  have hrun : ∀ fuel, m.eventsIn j w fuel = (m', j', es, .done) ↔
      ∃ s, w.run fuel { machine := m, journal := j } = (s, .done) ∧ m' = s.machine ∧
        j' = s.journal ∧ es = s.found.reverse := by
    intro fuel
    unfold eventsIn
    rcases w.run fuel { machine := m, journal := j } with ⟨s, e⟩
    constructor
    · intro h
      cases h
      exact ⟨s, rfl, rfl, rfl, rfl⟩
    · rintro ⟨s', h, rfl, rfl, rfl⟩
      cases h
      rfl
  simp only [hrun, Window.run_eq_done_iff hw]
  constructor
  · rintro ⟨fuel, s, ⟨k, -, hk, rfl⟩, rfl, rfl, rfl⟩
    exact ⟨k, hk, rfl, rfl, by simp [Window.onward]⟩
  · rintro ⟨k, hk, rfl, rfl, rfl⟩
    exact ⟨k + 1, _, ⟨k, Nat.lt_succ_self k, hk, rfl⟩, rfl, rfl, by simp [Window.onward]⟩

/-- What a machine emits on its way past a time is due before it. -/
theorem GetsPast.emitted_lt {stop : Binary64} {k : Nat} (h : m.GetsPast stop k) :
    ∀ e ∈ m.emitted k, e.time.lt stop = true := by
  induction k generalizing m with
  | zero => simp
  | succ k ih =>
    intro e he
    obtain ⟨hbefore, -, hgets⟩ := getsPast_succ.mp h
    rw [emitted_succ_first, List.mem_append] at he
    rcases he with he | he
    · have hs := m.stepped
      cases hout : m.step.2 with
      | emit e' =>
        rw [hout] at he hs
        cases List.mem_singleton.mp he
        have hnow : m.clock.now.lt stop = true := by
          by_contra hlt
          simp [isPast, hlt] at hbefore
        rwa [hs.event_clock.1]
      | _ =>
        rw [hout] at he
        cases he
    · exact ih hgets e he

/-- What it emits later is not. -/
theorem Orderly.emitted_not_lt (h : m.Orderly) {stop : Binary64} (hpast : m.isPast stop = true)
    (n : Nat) : ∀ e ∈ m.emitted n, e.time.lt stop = false := by
  intro e he
  rcases isPast_iff.mp hpast with hf | hnow
  · rw [emitted_eq_nil hf] at he
    cases he
  · obtain ⟨htime, -⟩ := h.emitted_onward n e he
    by_contra hlt
    have hlt : e.time.lt stop = true := by simpa using hlt
    rw [lt_of_le_of_lt htime hlt] at hnow
    cases hnow

/-! ## Cutting a window in two -/

variable {b c : Binary64} {k k₁ k₂ : Nat}

theorem isPast_of_le (hbc : b.le c = true) (h : m.isPast c = true) : m.isPast b = true := by
  rw [isPast_iff] at h ⊢
  apply h.imp_right
  intro hnow
  by_contra hlt
  have hlt : m.clock.now.lt b = true := by simpa using hlt
  rw [lt_of_lt_of_le hlt hbc] at hnow
  cases hnow

theorem GetsPast.earlier (hbc : b.le c = true) (h : m.GetsPast c k) :
    ∃ k₁ ≤ k, m.GetsPast b k₁ := by
  induction k generalizing m with
  | zero => exact ⟨0, Nat.le_refl 0, getsPast_zero.mpr (isPast_of_le hbc h.past)⟩
  | succ k ih =>
    by_cases hpast : m.isPast b = true
    · exact ⟨0, Nat.zero_le _, getsPast_zero.mpr hpast⟩
    · obtain ⟨-, hsound, hgets⟩ := getsPast_succ.mp h
      obtain ⟨k₁, hk₁, hgets₁⟩ := ih hgets
      exact ⟨k₁ + 1, Nat.succ_le_succ hk₁,
        getsPast_succ.mpr ⟨by simpa using hpast, hsound, hgets₁⟩⟩

theorem GetsPast.rest (h : m.GetsPast c (k₁ + k₂)) : (m.steps k₁).GetsPast c k₂ := by
  refine ⟨fun i hi => ?_, fun i hi => ?_, ?_⟩
  · rw [← steps_add]
    exact h.before (k₁ + i) (Nat.add_lt_add_left hi k₁)
  · rw [← steps_add]
    exact h.sound (k₁ + i) (Nat.add_lt_add_left hi k₁)
  · rw [← steps_add]
    exact h.past

theorem GetsPast.trans (hbc : b.le c = true) (h₁ : m.GetsPast b k₁)
    (h₂ : (m.steps k₁).GetsPast c k₂) : m.GetsPast c (k₁ + k₂) := by
  have hlater : ∀ i, k₁ ≤ i → m.steps i = (m.steps k₁).steps (i - k₁) := by
    intro i hi
    rw [← steps_add, Nat.add_sub_cancel' hi]
  refine ⟨fun i hi => ?_, fun i hi => ?_, ?_⟩
  · rcases Nat.lt_or_ge i k₁ with hlt | hge
    · have hbefore := h₁.before i hlt
      by_contra hpast
      rw [isPast_of_le hbc (by simpa using hpast)] at hbefore
      cases hbefore
    · rw [hlater i hge]
      exact h₂.before (i - k₁) (by omega)
  · rcases Nat.lt_or_ge i k₁ with hlt | hge
    · exact h₁.sound i hlt
    · rw [hlater i hge]
      exact h₂.sound (i - k₁) (by omega)
  · rw [steps_add]
    exact h₂.past

/-- The events of a window are those of its two parts. -/
theorem Orderly.filter_split (hm : m.Orderly) {a : Binary64} (hab : a.le b = true)
    (hbc : b.le c = true) (h : m.GetsPast b k₁) (k₂ : Nat) :
    (m.emitted (k₁ + k₂)).filter (fun e => a.le e.time && e.time.lt c) =
      (m.emitted k₁).filter (fun e => a.le e.time && e.time.lt b) ++
        ((m.steps k₁).emitted k₂).filter (fun e => b.le e.time && e.time.lt c) := by
  rw [emitted_add, List.filter_append]
  congr 1
  · apply List.filter_congr
    intro e he
    have hb := h.emitted_lt e he
    rw [hb, lt_of_lt_of_le hb hbc]
  · apply List.filter_congr
    intro e he
    obtain ⟨hnow, -⟩ := (hm.steps k₁).emitted_onward k₂ e he
    have hnot := (hm.steps k₁).emitted_not_lt h.past k₂ e he
    obtain ⟨-, hnumber, -⟩ := le_iff.mp hnow
    obtain ⟨-, hb, -⟩ := le_iff.mp hab
    have hle : b.le e.time = true := (le_iff_not_lt hb hnumber).mpr hnot
    rw [hle, le_trans hab hle]

end

/-- **Windows are exact, and fit together.** A search of any machine that was loaded and stepped, if
it comes to its end, finds those events of the further run whose time lies in the window, and all of
them; it leaves the machine in the first state that has finished or whose time is not before the end
of the window. So to search a window and then the next one is to search both as one: the events, the
machine and the reports are the same, and the one comes to its end if the other does. -/
theorem windows_tile (p : Program) (n : Nat) (j : Journal) :
    (∀ (w : Window) (fuel : Nat) (m' : Machine) (j' : Journal) (es : List Event),
      w.maxSteps = none → w.take = none →
      ((load p).steps n).eventsIn j w fuel = (m', j', es, .done) →
      ∃ k, m' = ((load p).steps n).steps k ∧
        (∀ N ≥ k, (((load p).steps n).emitted N).filter
          (fun e => w.start.le e.time && e.time.lt w.stop) = es) ∧
        (∀ i < k, (((load p).steps n).steps i).isFinished = false ∧
          (((load p).steps n).steps i).clock.now.lt w.stop = true) ∧
        (m'.isFinished = true ∨ m'.clock.now.lt w.stop = false ∧
          (w.stop.IsNumber → w.stop.le m'.clock.now = true))) ∧
    ∀ (a b c : Binary64) (m' : Machine) (j' : Journal) (es : List Event),
      a.le b = true → b.le c = true →
      ((∃ fuel, ((load p).steps n).eventsIn j { start := a, stop := c } fuel = (m', j', es, .done)) ↔
        ∃ m₁ j₁ es₁ es₂,
          (∃ fuel, ((load p).steps n).eventsIn j { start := a, stop := b } fuel =
            (m₁, j₁, es₁, .done)) ∧
          (∃ fuel, m₁.eventsIn j₁ { start := b, stop := c } fuel = (m', j', es₂, .done)) ∧
          es = es₁ ++ es₂) := by
  have hm : ((load p).steps n).Orderly := (load_orderly p).steps n
  generalize (load p).steps n = m at hm
  refine ⟨fun w fuel m' j' es hsteps htake he => ?_, fun a b c m' j' es hab hbc => ?_⟩
  · obtain ⟨k, hk, rfl, -, rfl⟩ := (eventsIn_done_iff ⟨hsteps, htake⟩).mp ⟨fuel, he⟩
    refine ⟨k, rfl, fun N hN => ?_, fun i hi => ?_, ?_⟩
    · rw [m.emitted_split hN, List.filter_append]
      have hlater : ((m.steps k).emitted (N - k)).filter
          (fun e => w.start.le e.time && e.time.lt w.stop) = [] := by
        rw [List.filter_eq_nil_iff]
        intro e he
        rw [(hm.steps k).emitted_not_lt hk.past (N - k) e he, Bool.and_false]
        exact Bool.false_ne_true
      rw [hlater, List.append_nil]
      rfl
    · have hbefore := hk.before i hi
      simpa [isPast] using hbefore
    · rcases isPast_iff.mp hk.past with hf | hnow
      · exact .inl hf
      · refine .inr ⟨hnow, fun hstop => ?_⟩
        exact (le_iff_not_lt hstop (hm.steps k).now.isNumber).mpr hnow
  · simp only [eventsIn_done_iff (w := { start := a, stop := c }) ⟨rfl, rfl⟩,
      eventsIn_done_iff (w := { start := a, stop := b }) ⟨rfl, rfl⟩,
      eventsIn_done_iff (w := { start := b, stop := c }) ⟨rfl, rfl⟩]
    constructor
    · rintro ⟨k, hk, rfl, rfl, rfl⟩
      obtain ⟨k₁, hle, hk₁⟩ := hk.earlier hbc
      obtain ⟨k₂, rfl⟩ := Nat.exists_eq_add_of_le hle
      refine ⟨_, _, _, _, ⟨k₁, hk₁, rfl, rfl, rfl⟩, ⟨k₂, hk.rest, ?_, ?_, rfl⟩, ?_⟩
      · exact m.steps_add k₁ k₂
      · exact m.reports_add j k₁ k₂
      · exact hm.filter_split hab hbc hk₁ k₂
    · rintro ⟨_, _, _, _, ⟨k₁, hk₁, rfl, rfl, rfl⟩, ⟨k₂, hk₂, rfl, rfl, rfl⟩, rfl⟩
      refine ⟨k₁ + k₂, hk₁.trans hbc hk₂, ?_, ?_, ?_⟩
      · exact (m.steps_add k₁ k₂).symm
      · exact (m.reports_add j k₁ k₂).symm
      · exact (hm.filter_split hab hbc hk₁ k₂).symm

/-- The time that three ticks take at first, at which a note of `mixedTimes` ends. -/
def threeTicks : Binary64 := .ofDecimal false 46875 (-6)

/-- Cut at the time of one of its events, right after a change of tempo. -/
theorem windows_tile_mixed : ∃ m' j' es m₁ j₁ es₁ es₂ k,
    ((load mixedTimes).steps 1).eventsIn {} { start := zero, stop := posInf } 40 =
        (m', j', es, .done) ∧
      m'.state = .halted ∧
      es.map (·.time == threeTicks) = [true, false, false, false, false, false, false] ∧
      (∀ N ≥ k, (((load mixedTimes).steps 1).emitted N).filter
        (fun e => zero.le e.time && e.time.lt posInf) = es) ∧
      (∃ fuel, ((load mixedTimes).steps 1).eventsIn {} { start := zero, stop := threeTicks } fuel =
        (m₁, j₁, es₁, .done)) ∧
      (∃ fuel, m₁.eventsIn j₁ { start := threeTicks, stop := posInf } fuel = (m', j', es₂, .done)) ∧
      es = es₁ ++ es₂ := by
  have hdone : (((load mixedTimes).steps 1).eventsIn {} { start := zero, stop := posInf } 40).2.2.2 =
      .done := by decide +kernel
  have hhalted : (((load mixedTimes).steps 1).eventsIn {} { start := zero, stop := posInf } 40).1.state =
      .halted := by decide +kernel
  have htimes : ((((load mixedTimes).steps 1).eventsIn {}
      { start := zero, stop := posInf } 40).2.2.1.map (·.time == threeTicks)) =
        [true, false, false, false, false, false, false] := by decide +kernel
  rcases he : ((load mixedTimes).steps 1).eventsIn {} { start := zero, stop := posInf } 40 with
    ⟨m', j', es, e⟩
  rw [he] at hdone hhalted htimes
  cases hdone
  obtain ⟨k, -, hfound, -⟩ := (windows_tile mixedTimes 1 {}).1 _ 40 m' j' es rfl rfl he
  obtain ⟨m₁, j₁, es₁, es₂, hfirst, hsecond, hes⟩ :=
    ((windows_tile mixedTimes 1 {}).2 zero threeTicks posInf m' j' es (by decide +kernel)
      (by decide +kernel)).mp ⟨40, he⟩
  exact ⟨m', j', es, m₁, j₁, es₁, es₂, k, rfl, hhalted, htimes, hfound, hfirst, hsecond, hes⟩

end Ostinato.Machine
