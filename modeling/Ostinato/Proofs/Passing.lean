import Ostinato.Live.Stage

/-!
# What happens between the turns of runs

Time passes, timers go off, signals are raised, and lookouts post themselves and take leave. None of
this concerns what runs do: `Passes s s'` says that at most the bookkeeping of waits has changed from
`s` to `s'`, apart from the schedule. Only a run itself does more when it acts.
-/

namespace Ostinato.Live

/-- Phases that differ at most in the bookkeeping of a wait. -/
inductive Phase.Like : Phase → Phase → Prop where
  | refl (phase : Phase) : Like phase phase
  | wait (w w' : Wait) : Like (.waiting w) (.waiting w')

theorem Phase.Like.trans {a b c : Phase} (hab : Like a b) (hbc : Like b c) : Like a c := by
  cases hab with
  | refl => exact hbc
  | wait w w' =>
    cases hbc with
    | refl => exact .wait w w'
    | wait _ w'' => exact .wait w w''

namespace Stage

/-- From `s` to `s'` nothing has changed for players and runs but the bookkeeping of waits. -/
structure Passes (s s' : Stage) : Prop where
  rig : s'.rig = s.rig
  players : s'.players = s.players
  size : s'.runs.size = s.runs.size
  runs : ∀ (i : Nat) (r : Performance), s.runs[i]? = some r →
    ∃ phase, s'.runs[i]? = some { r with phase := phase } ∧ r.phase.Like phase

section
variable {s s' s'' : Stage} {i j : Nat} {r : Performance} {p : Player}

theorem modifyRun_self (h : s.runs[i]? = some r) (f : Performance → Performance) :
    (s.modifyRun i f).runs[i]? = some (f r) := by
  unfold modifyRun
  rw [Array.getElem?_modify, if_pos rfl, h, Option.map_some]

theorem modifyRun_of_ne (h : j ≠ i) (f : Performance → Performance) :
    (s.modifyRun i f).runs[j]? = s.runs[j]? := by
  unfold modifyRun
  rw [Array.getElem?_modify, if_neg (Ne.symm h)]

theorem modifyPlayer_self (h : s.players[i]? = some p) (f : Player → Player) :
    (s.modifyPlayer i f).players[i]? = some (f p) := by
  unfold modifyPlayer
  rw [Array.getElem?_modify, if_pos rfl, h, Option.map_some]

theorem modifyPlayer_of_ne (h : j ≠ i) (f : Player → Player) :
    (s.modifyPlayer i f).players[j]? = s.players[j]? := by
  unfold modifyPlayer
  rw [Array.getElem?_modify, if_neg (Ne.symm h)]

theorem Passes.of_eq (hrig : s'.rig = s.rig) (hplayers : s'.players = s.players)
    (hruns : s'.runs = s.runs) : Passes s s' :=
  ⟨hrig, hplayers, by rw [hruns], fun i r hr => ⟨r.phase, by rw [hruns, hr], .refl _⟩⟩

theorem Passes.refl (s : Stage) : Passes s s := .of_eq rfl rfl rfl

theorem Passes.trans (h : Passes s s') (h' : Passes s' s'') : Passes s s'' := by
  refine ⟨h'.rig.trans h.rig, h'.players.trans h.players, h'.size.trans h.size, fun i r hr => ?_⟩
  obtain ⟨phase, hr', hlike⟩ := h.runs i r hr
  obtain ⟨phase', hr'', hlike'⟩ := h'.runs i _ hr'
  exact ⟨phase', hr'', hlike.trans hlike'⟩

theorem wait?_of_run {w : Wait} (hr : s.runs[i]? = some r)
    (hphase : r.phase = .waiting w) : s.wait? i = some w := by
  unfold wait?
  rw [hr]
  show r.phase.wait? = some w
  rw [hphase]
  rfl

theorem passes_rewait {w : Wait} (hw : s.wait? i = some w) (w' : Wait) :
    Passes s (s.setPhase i (.waiting w')) := by
  refine ⟨rfl, rfl, Array.size_modify, fun j r hr => ?_⟩
  by_cases hj : j = i
  · subst hj
    have hphase : r.phase = .waiting w := by
      unfold wait? at hw
      rw [hr] at hw
      change r.phase.wait? = some w at hw
      unfold Phase.wait? at hw
      split at hw
      · rename_i w₀ hw₀
        rw [hw₀, Option.some.inj hw]
      · cases hw
    exact ⟨.waiting w', modifyRun_self hr _, hphase ▸ .wait w w'⟩
  · exact ⟨r.phase, (modifyRun_of_ne hj _).trans hr, .refl _⟩

/-! ## Waits -/

theorem passes_relieve (s : Stage) (i : Nat) : Passes s (s.relieve i) := by
  unfold relieve
  split
  · rename_i w hw
    have hgone := passes_rewait hw { w with lookout := .leaving }
    exact hgone.trans (.of_eq rfl rfl rfl)
  · exact .refl s

theorem passes_foldl_relieve (s : Stage) (is : List Nat) : Passes s (is.foldl relieve s) := by
  induction is generalizing s with
  | nil => exact .refl s
  | cons i is ih => exact (s.passes_relieve i).trans (ih _)

theorem passes_raise (s : Stage) (signal : Nat) : Passes s (s.raise signal) := by
  have hraised : Passes s { s with
      raised := if s.isRaised signal then s.raised else signal :: s.raised
      watched := (s.watched.partition (s.isCancelledBy signal)).2 } := .of_eq rfl rfl rfl
  exact hraised.trans (passes_foldl_relieve _ _)

theorem passes_tell (s : Stage) (i : Nat) : Passes s (s.tell i) := by
  unfold tell
  split
  · rename_i w hw
    split
    · exact .refl s
    · exact (passes_rewait hw { w with told := true }).trans (.of_eq rfl rfl rfl)
  · exact .refl s

theorem passes_actLookout {w : Wait} (hw : s.wait? i = some w) (r : Performance) :
    Passes s (s.actLookout i r w) := by
  unfold actLookout
  split
  · exact (passes_rewait hw { w with lookout := .watching }).trans (.of_eq rfl rfl rfl)
  · exact (passes_rewait hw { w with lookout := .gone }).trans (.of_eq rfl rfl rfl)

theorem passes_actLeave (s : Stage) (i : Nat) (w : Wait) : Passes s (s.actLeave i w) := by
  unfold actLeave
  split
  · exact .of_eq rfl rfl rfl
  · exact s.passes_tell i

theorem passes_recallLookout {w : Wait} (hw : s.wait? i = some w) :
    Passes s (s.recallLookout i w) := by
  have hrecalled := passes_rewait hw { w with recalled := true }
  unfold recallLookout
  dsimp only
  split
  · refine hrecalled.trans (.trans ?_ (passes_relieve _ i))
    exact .of_eq rfl rfl rfl
  · exact hrecalled

theorem passes_actFor {f : Performance → Wait → Stage}
    (hf : ∀ r w, s.wait? i = some w → Passes s (f r w)) : Passes s (s.actFor i f) := by
  unfold actFor
  split
  · rename_i r w _ hw
    exact hf r w hw
  · exact .refl s

/-- Nobody but a run does more than wait. -/
theorem passes_actThread {t : Thread} (ht : ∀ i, t ≠ .run i) : Passes s (s.actThread t) := by
  cases t with
  | run i => exact absurd rfl (ht i)
  | lookout i => exact passes_actFor fun r w hw => passes_actLookout hw r
  | leave i => exact passes_actFor fun r w hw => s.passes_actLeave i w
  | deadline i => exact s.passes_tell i
  | raise signal => exact s.passes_raise signal
  | host => exact .of_eq rfl rfl rfl

theorem takeOver_stores (s : Stage) (i : Nat) (r : Performance) (p : Player) (a : Act) :
    ∃ s₁ : Stage, s₁.rig = a.rig ∧
      s₁.runs = (s.modifyRun i fun _ =>
        { r with sounding := a.sounding, emitted := a.emitted, errors := a.errors }).runs ∧
      s₁.players = (s.modifyPlayer r.player fun _ =>
        { p with machine := a.machine, heard := a.heard }).players ∧
      Passes s₁ (s.takeOver i r p a) := by
  refine ⟨(({ s with rig := a.rig, calls := a.calls }).modifyPlayer r.player fun _ =>
      { p with machine := a.machine, heard := a.heard }).modifyRun i fun _ =>
      { r with sounding := a.sounding, emitted := a.emitted, errors := a.errors },
    rfl, rfl, rfl, ?_⟩
  unfold takeOver
  dsimp only
  split
  · unfold cancelPlayer
    split
    · exact passes_raise _ _
    · exact .refl _
  · exact .refl _

/-! ## Rounds -/

theorem passes_wakeDue (s : Stage) (fuel : Nat) : Passes s (s.wakeDue fuel) := by
  induction fuel generalizing s with
  | zero => exact .refl s
  | succ fuel ih =>
    unfold wakeDue
    split
    · split
      · refine .trans ?_ (ih _)
        exact .of_eq rfl rfl rfl
      · exact .refl s
    · exact .refl s

theorem passes_dropStale (s : Stage) (fuel : Nat) : Passes s (s.dropStale fuel) := by
  induction fuel generalizing s with
  | zero => exact .refl s
  | succ fuel ih =>
    unfold dropStale
    split
    · split
      · exact .refl s
      · refine .trans ?_ (ih _)
        exact .of_eq rfl rfl rfl
    · exact .refl s

theorem passes_beginRound (s : Stage) : Passes s s.beginRound :=
  (s.passes_wakeDue s.timers.size).trans (.of_eq rfl rfl rfl)

theorem passes_moveTo (s : Stage) (t : Binary64) : Passes s (s.moveTo t) := by
  unfold moveTo
  split
  · exact .of_eq rfl rfl rfl
  · exact .refl s

theorem passes_nextRound (h : s.nextRound = some s') : Passes s s' := by
  have hfresh := s.passes_dropStale s.timers.size
  unfold nextRound at h
  dsimp only at h
  split at h
  · cases h
  · rename_i time _ _ _
    cases h
    exact hfresh.trans ((passes_moveTo _ time).trans (passes_beginRound _))
  · cases h
    exact hfresh.trans (passes_beginRound _)

/-- Whoever comes next, time passes at most before one thread acts. -/
theorem advance_cases (h : s.advance = some s') :
    Passes s s' ∨ ∃ s₁ t, Passes s s₁ ∧ s' = s₁.actThread t := by
  unfold advance at h
  split at h
  · rename_i left rounds t rest _ _
    dsimp only at h
    split at h
    · cases h
      exact .inr ⟨{ s with left := left, ready := rest }, t, .of_eq rfl rfl rfl, rfl⟩
    · cases h
      exact .inl (.of_eq rfl rfl rfl)
  · exact .inl (passes_nextRound h)

/-- What everybody keeps that passes and that acts holds at the end. -/
theorem goUntil_induct {P : Stage → Prop} (hpass : ∀ s s', P s → Passes s s' → P s')
    (hact : ∀ s t, P s → P (s.actThread t)) (h : P s) (done : Stage → Bool) (fuel : Nat) :
    P (s.goUntil done fuel) := by
  induction fuel generalizing s with
  | zero => exact h
  | succ fuel ih =>
    unfold goUntil
    split
    · exact h
    · split
      · exact h
      · rename_i s' hs
        rcases advance_cases hs with hpasses | ⟨s₁, t, hpasses, rfl⟩
        · exact ih (hpass s s' h hpasses)
        · exact ih (hact s₁ t (hpass s s₁ h hpasses))

end

end Stage

end Ostinato.Live
