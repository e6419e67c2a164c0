import Ostinato.Proofs.Staging

/-!
# Beside a run

When a run acts, all others stand where they stood: `Beside i who s s'` says that from `s` to `s'`
nobody has acted but the `i`-th run, one of the player `who`. No signal is lowered and no lookout that
was called back is posted again, whoever acts (`Keeps`).
-/

namespace Ostinato.Live.Stage

section
variable {s s' s'' : Stage} {i who : Nat} {r : Performance} {p : Player}

/-! ## What is never taken back -/

theorem isRaised_iff {signal : Nat} : s.isRaised signal = true ↔ signal ∈ s.raised :=
  List.contains_iff_mem

/-- A run waits and has called its lookout back. -/
def IsRecalled (s : Stage) (i : Nat) : Prop := ∃ w, s.wait? i = some w ∧ w.recalled = true

theorem IsRecalled.of_run (h : s.IsRecalled i) (hrun : s'.runs[i]? = s.runs[i]?) :
    s'.IsRecalled i := by
  unfold IsRecalled wait? at h ⊢
  rwa [hrun]

/-- From `s` to `s'` no signal was lowered, and no lookout that was called back is posted again. -/
structure Keeps (s s' : Stage) : Prop where
  raised : s.raised ⊆ s'.raised
  recalled : ∀ j, s.IsRecalled j → s'.IsRecalled j

theorem Keeps.of_eq (hruns : s'.runs = s.runs) (hraised : s.raised ⊆ s'.raised) : Keeps s s' :=
  ⟨hraised, fun _ h => h.of_run (congrArg (·[_]?) hruns)⟩

theorem Keeps.refl (s : Stage) : Keeps s s := .of_eq rfl (List.Subset.refl _)

theorem Keeps.trans (h : Keeps s s') (h' : Keeps s' s'') : Keeps s s'' :=
  ⟨List.Subset.trans h.raised h'.raised, fun j hj => h'.recalled j (h.recalled j hj)⟩

theorem keeps_rewait {w w' : Wait} (hw : s.wait? i = some w)
    (h : w.recalled = true → w'.recalled = true) : Keeps s (s.setPhase i (.waiting w')) := by
  refine ⟨List.Subset.refl _, fun j hj => ?_⟩
  by_cases hji : j = i
  · subst hji
    obtain ⟨w₀, hw₀, hrecalled⟩ := hj
    obtain ⟨r, hr, -⟩ := Option.bind_eq_some_iff.mp hw
    rw [hw] at hw₀
    cases hw₀
    exact ⟨w', wait?_of_run (modifyRun_self hr _) rfl, h hrecalled⟩
  · exact hj.of_run (modifyRun_of_ne hji _)

theorem keeps_relieve (s : Stage) (i : Nat) : Keeps s (s.relieve i) := by
  unfold relieve
  split
  · rename_i w hw
    have hleaving : Keeps s (s.setPhase i (.waiting { w with lookout := .leaving })) :=
      keeps_rewait hw id
    exact hleaving.trans (.of_eq rfl (List.Subset.refl _))
  · exact .refl s

theorem keeps_raise (s : Stage) (signal : Nat) : Keeps s (s.raise signal) := by
  have hfold (s : Stage) (is : List Nat) : Keeps s (is.foldl relieve s) := by
    induction is generalizing s with
    | nil => exact .refl s
    | cons i is ih => exact (s.keeps_relieve i).trans (ih _)
  have hraised : Keeps s { s with
      raised := if s.isRaised signal then s.raised else signal :: s.raised
      watched := (s.watched.partition (s.isCancelledBy signal)).2 } := by
    refine .of_eq rfl ?_
    dsimp only
    split
    · exact List.Subset.refl _
    · exact List.subset_cons_self _ _
  exact hraised.trans (hfold _ _)

theorem keeps_tell (s : Stage) (i : Nat) : Keeps s (s.tell i) := by
  unfold tell
  split
  · rename_i w hw
    split
    · exact .refl s
    · have htold : Keeps s (s.setPhase i (.waiting { w with told := true })) := keeps_rewait hw id
      exact htold.trans (.of_eq rfl (List.Subset.refl _))
  · exact .refl s

theorem keeps_actLookout {w : Wait} (hw : s.wait? i = some w) (r : Performance) :
    Keeps s (s.actLookout i r w) := by
  have hrewait (lookout : Lookout) :
      Keeps s (s.setPhase i (.waiting { w with lookout := lookout })) := keeps_rewait hw id
  unfold actLookout
  split
  · exact (hrewait .watching).trans (.of_eq rfl (List.Subset.refl _))
  · exact (hrewait .gone).trans (.of_eq rfl (List.Subset.refl _))

theorem keeps_recallLookout {w : Wait} (hw : s.wait? i = some w) :
    Keeps s (s.recallLookout i w) := by
  have hrecalled : Keeps s (s.setPhase i (.waiting { w with recalled := true })) :=
    keeps_rewait hw fun _ => rfl
  unfold recallLookout
  dsimp only
  split
  · refine hrecalled.trans (.trans ?_ (keeps_relieve _ i))
    exact .of_eq rfl (List.Subset.refl _)
  · exact hrecalled

theorem keeps_actThread {t : Thread} (ht : ∀ j, t ≠ .run j) : Keeps s (s.actThread t) := by
  have hfor {j : Nat} {f : Performance → Wait → Stage}
      (hf : ∀ r w, s.wait? j = some w → Keeps s (f r w)) : Keeps s (s.actFor j f) := by
    unfold actFor
    split
    · rename_i r w _ hw
      exact hf r w hw
    · exact .refl s
  cases t with
  | run j => exact absurd rfl (ht j)
  | lookout j => exact hfor fun r w hw => keeps_actLookout hw r
  | leave j =>
    refine hfor fun r w _ => ?_
    unfold actLeave
    split
    · exact .of_eq rfl (List.Subset.refl _)
    · exact s.keeps_tell j
  | deadline j => exact s.keeps_tell j
  | raise signal => exact s.keeps_raise signal
  | host => exact .of_eq rfl (List.Subset.refl _)

/-! ## What a run leaves alone -/

/-- From `s` to `s'` nobody has acted but the `i`-th run, one of the player `who`, and no signal was
lowered. -/
structure Beside (i who : Nat) (s s' : Stage) : Prop where
  size : s'.runs.size = s.runs.size
  own : (∀ r, s.runs[i]? = some r → r.player = who) → ∀ r, s'.runs[i]? = some r → r.player = who
  runs : ∀ j r, j ≠ i → s.runs[j]? = some r →
    ∃ phase, s'.runs[j]? = some { r with phase := phase } ∧ r.phase.Like phase
  players : ∀ q, q ≠ who → s'.players[q]? = s.players[q]?
  raised : s.raised ⊆ s'.raised
  recalled : ∀ j, j ≠ i → s.IsRecalled j → s'.IsRecalled j

theorem exists_run (h : s'.runs.size = s.runs.size) {j : Nat} {r' : Performance}
    (hr : s'.runs[j]? = some r') : ∃ r, s.runs[j]? = some r := by
  obtain ⟨hlt, -⟩ := Array.getElem?_eq_some_iff.mp hr
  rw [h] at hlt
  exact ⟨_, Array.getElem?_eq_getElem hlt⟩

theorem Passes.beside (h : Passes s s') (hkeeps : Keeps s s') : Beside i who s s' := by
  refine ⟨h.size, fun hown r' hr' => ?_, fun j r _ hr => h.runs j r hr, fun _ _ => h.players ▸ rfl,
    hkeeps.raised, fun j _ => hkeeps.recalled j⟩
  obtain ⟨r, hr⟩ := exists_run h.size hr'
  obtain ⟨phase, hsome, -⟩ := h.runs i r hr
  rw [hr'] at hsome
  cases hsome
  exact hown r hr

theorem Beside.other (h : Beside i who s s') {j : Nat} {r' : Performance} (hj : j ≠ i)
    (hr : s'.runs[j]? = some r') :
    ∃ r phase, s.runs[j]? = some r ∧ r' = { r with phase := phase } ∧ r.phase.Like phase := by
  obtain ⟨r, hr₀⟩ := exists_run h.size hr
  obtain ⟨phase, hsome, hlike⟩ := h.runs j r hj hr₀
  rw [hr] at hsome
  exact ⟨r, phase, hr₀, Option.some.inj hsome, hlike⟩

theorem Beside.of_eq (hruns : s'.runs = s.runs) (hplayers : s'.players = s.players)
    (hraised : s'.raised = s.raised) : Beside i who s s' :=
  ⟨congrArg Array.size hruns, fun hown r hr => hown r (hruns ▸ hr),
    fun _ r _ hr => ⟨r.phase, hruns ▸ hr, .refl _⟩, fun _ _ => hplayers ▸ rfl,
    hraised ▸ List.Subset.refl _, fun _ _ h => h.of_run (congrArg (·[_]?) hruns)⟩

theorem Beside.trans (h : Beside i who s s') (h' : Beside i who s' s'') : Beside i who s s'' := by
  refine ⟨h'.size.trans h.size, fun hown => h'.own (h.own hown), fun j r hj hr => ?_,
    fun q hq => (h'.players q hq).trans (h.players q hq), List.Subset.trans h.raised h'.raised,
    fun j hj hw => h'.recalled j hj (h.recalled j hj hw)⟩
  obtain ⟨phase, hr', hlike⟩ := h.runs j r hj hr
  obtain ⟨phase', hr'', hlike'⟩ := h'.runs j _ hj hr'
  exact ⟨phase', hr'', hlike.trans hlike'⟩

theorem beside_modifyRun (s : Stage) (i : Nat) {who : Nat} {f : Performance → Performance}
    (hf : ∀ r, r.player = who → (f r).player = who) : Beside i who s (s.modifyRun i f) := by
  refine ⟨Array.size_modify, fun hown r' hr' => ?_,
    fun _ r hj hr => ⟨r.phase, (modifyRun_of_ne hj f).trans hr, .refl _⟩, fun _ _ => rfl,
    List.Subset.refl _, fun _ hj hw => hw.of_run (modifyRun_of_ne hj f)⟩
  cases hr : s.runs[i]? with
  | none =>
    rw [modifyRun, Array.getElem?_modify, if_pos rfl, hr] at hr'
    cases hr'
  | some r =>
    rw [modifyRun_self hr] at hr'
    cases hr'
    exact hf r (hown r hr)

theorem beside_modifyPlayer (s : Stage) (i who : Nat) (f : Player → Player) :
    Beside i who s (s.modifyPlayer who f) :=
  ⟨rfl, id, fun _ r _ hr => ⟨r.phase, hr, .refl _⟩, fun _ hq => modifyPlayer_of_ne hq f,
    List.Subset.refl _, fun _ _ hw => hw.of_run rfl⟩

theorem beside_takeOver (s : Stage) (i : Nat) (r : Performance) (p : Player) (a : Act) :
    Beside i r.player s (s.takeOver i r p a) := by
  have hstored : Beside i r.player s ((({ s with rig := a.rig, calls := a.calls }).modifyPlayer
      r.player fun _ => { p with machine := a.machine, heard := a.heard }).modifyRun i fun _ =>
      { r with sounding := a.sounding, emitted := a.emitted, errors := a.errors }) := by
    have hrig : Beside i r.player s { s with rig := a.rig, calls := a.calls } := .of_eq rfl rfl rfl
    exact (hrig.trans (beside_modifyPlayer _ _ _ _)).trans (beside_modifyRun _ _ fun _ _ => rfl)
  unfold takeOver
  dsimp only
  split
  · unfold cancelPlayer
    split
    · exact hstored.trans ((passes_raise _ _).beside (keeps_raise _ _))
    · exact hstored
  · exact hstored

theorem Beside.setPhase (h : Beside i who s s') (phase : Phase) :
    Beside i who s (s'.setPhase i phase) :=
  h.trans (beside_modifyRun s' i fun _ hr => hr)

theorem Beside.rephase (h : Beside i who s s') (phase : Phase) (rounds : Nat) (t : Thread) :
    Beside i who s ((s'.setPhase i phase).enqueue rounds t) :=
  (h.setPhase phase).trans (.of_eq rfl rfl rfl)

theorem Beside.await (h : Beside i who s s') (p : Player) (deadline : Binary64) :
    Beside i who s (s'.await i p deadline) := by
  unfold Stage.await
  dsimp only
  split
  · have hlater : Beside i who s
        (s'.callAt (s'.now + coarse p (deadline - s'.now)) (.deadline i)) :=
      h.trans (.of_eq rfl rfl rfl)
    exact hlater.rephase _ _ _
  · exact h.rephase _ _ _

theorem failRun_beside (s : Stage) (i : Nat) (r : Performance) (p : Player) (a : Act)
    (f : RunFault) : Beside i r.player s (s.failRun i r p a f) := by
  have hleft := (s.beside_takeOver i r p (a.leave p.part)).trans
    (beside_modifyPlayer _ i r.player fun p => { p with running := false })
  exact hleft.setPhase (.ended (.error f))

theorem continueRun_beside (s : Stage) (i : Nat) (r : Performance) (p : Player) (left : Nat) :
    Beside i r.player s (s.continueRun i r p left) := by
  have htaken := s.beside_takeOver i r p
  unfold continueRun
  rcases (s.act p r).stretch p.part left with ⟨b, pause⟩
  cases pause with
  | yield => exact (htaken b).rephase _ _ _
  | wait due => exact (htaken b).await p (r.start + due)
  | listen n left => exact (htaken b).rephase _ _ _
  | failed f => exact s.failRun_beside i r p b f
  | «over» =>
    dsimp only
    rcases b.conclude p.part with ⟨c, result, failure⟩
    have hended := (htaken c).trans (beside_modifyPlayer _ i r.player fun p =>
      { p with running := false, result := some result })
    dsimp only
    cases failure with
    | some message => exact hended.setPhase _
    | none =>
      dsimp only
      split
      · exact hended.rephase _ _ _
      · exact hended.setPhase _

/-! ## A run and its player -/

/-- The `i`-th run is `r`, and its player is `p`. -/
structure Hosts (s : Stage) (i : Nat) (r : Performance) (p : Player) : Prop where
  run : s.runs[i]? = some r
  player : s.players[r.player]? = some p

theorem Hosts.passes (h : s.Hosts i r p) (hs : Passes s s') :
    ∃ phase, s'.Hosts i { r with phase := phase } p ∧ r.phase.Like phase := by
  obtain ⟨phase, hr, hlike⟩ := hs.runs i r h.run
  exact ⟨phase, ⟨hr, hs.players ▸ h.player⟩, hlike⟩

theorem Hosts.takeOver_stored (h : s.Hosts i r p) (r' : Performance) (hr' : r'.player = r.player)
    (p' : Player) (a : Act) : ∃ s₁ : Stage, s₁.rig = a.rig ∧
      s₁.Hosts i { r' with sounding := a.sounding, emitted := a.emitted, errors := a.errors }
        { p' with machine := a.machine, heard := a.heard } ∧
      Passes s₁ (s.takeOver i r' p' a) := by
  obtain ⟨s₁, hrig, hruns, hplayers, hpasses⟩ := s.takeOver_stores i r' p' a
  refine ⟨s₁, hrig, ⟨?_, ?_⟩, hpasses⟩
  · rw [hruns]
    exact modifyRun_self h.run _
  · rw [hplayers]
    exact modifyPlayer_self (hr' ▸ h.player) _

end

/-! ## Whoever acts -/

section
variable {s s' : Stage} {i j who : Nat} {r : Performance} {p : Player}

theorem beginRun_beside (h : s.Hosts i r p) : Beside i r.player s (s.beginRun i r p) := by
  unfold beginRun
  dsimp only
  generalize (s.act { p with running := true, cancel := some r.signal }
    { r with start := s.now }).enter p.part = x
  obtain ⟨b, failure⟩ := x
  have htaken : Beside i r.player s (s.takeOver i { r with start := s.now }
    { p with running := true, cancel := some r.signal } b) :=
    s.beside_takeOver i { r with start := s.now } _ b
  cases failure with
  | some message => exact htaken.setPhase _
  | none =>
    dsimp only
    split
    · exact htaken.rephase _ _ _
    · split
      · rename_i r' p' hr' hp'
        have hplayer : r'.player = r.player :=
          htaken.own (fun r₀ hr₀ => by rw [h.run] at hr₀; cases hr₀; rfl) r' hr'
        have hgoes := continueRun_beside (s.takeOver i { r with start := s.now }
          { p with running := true, cancel := some r.signal } b) i r' p' p'.part.yieldInterval
        rw [hplayer] at hgoes
        exact htaken.trans hgoes
      · exact htaken

theorem actWait_beside {w : Wait} (h : s.Hosts i r p) (hphase : r.phase = .waiting w) :
    Beside i r.player s (s.actWait i r p w) := by
  unfold actWait
  split
  · unfold afterWait moveTo
    dsimp only
    split
    · split
      · have hmoved : Beside i r.player s { s with now := w.deadline } := .of_eq rfl rfl rfl
        exact hmoved.trans (continueRun_beside _ _ _ _ _)
      · exact continueRun_beside _ _ _ _ _
    · exact continueRun_beside _ _ _ _ _
  · have hw := wait?_of_run h.run hphase
    exact (passes_recallLookout hw).beside (keeps_recallLookout hw)

theorem actRun_beside (h : s.Hosts i r p) : Beside i r.player s (s.actRun i) := by
  unfold actRun
  rw [h.run]
  dsimp only
  rw [h.player]
  dsimp only
  split
  · exact beginRun_beside h
  · exact continueRun_beside _ _ _ _ _
  · rename_i w hphase
    exact actWait_beside h hphase
  · exact (beside_takeOver _ _ _ _ _).rephase _ _ _
  · rename_i failure next hphase
    cases failure with
    | none =>
      cases next with
      | finish result =>
        have hsame : Beside i r.player s s := .of_eq rfl rfl rfl
        exact hsame.setPhase _
      | _ => exact continueRun_beside _ _ _ _ _
    | some message =>
      have hsame : Beside i r.player s s := .of_eq rfl rfl rfl
      cases next with
      | proceed left => exact failRun_beside _ _ _ _ _ _
      | _ => exact hsame.setPhase _
  · exact .of_eq rfl rfl rfl

/-- Every other run of a player has ended. -/
def Sole (s : Stage) (i who : Nat) : Prop :=
  ∀ j r, s.runs[j]? = some r → j ≠ i → r.player = who → ∃ e, r.phase = .ended e

/-- Only runs of the player itself have a part in whether it has a sole one. -/
theorem Sole.beside (h : s.Sole i who) {q : Nat} (hs : Beside j q s s')
    (hj : ∀ r, s'.runs[j]? = some r → j ≠ i → r.player ≠ who) : s'.Sole i who := by
  intro k r' hr' hki hk
  by_cases hkj : k = j
  · subst hkj
    exact absurd hk (hj r' hr' hki)
  · obtain ⟨r, phase, hr, rfl, hlike⟩ := hs.other hkj hr'
    obtain ⟨e, he⟩ := h k r hr hki hk
    rw [he] at hlike
    cases hlike
    exact ⟨e, rfl⟩

theorem actRun_cases (s : Stage) (j : Nat) :
    s.actRun j = s ∨ ∃ r p, s.Hosts j r p ∧ ∀ e, r.phase ≠ .ended e := by
  unfold actRun
  cases hr : s.runs[j]? with
  | none => exact .inl rfl
  | some r =>
    cases hp : s.players[r.player]? with
    | none =>
      dsimp only
      rw [hp]
      exact .inl rfl
    | some p =>
      by_cases hended : ∃ e, r.phase = .ended e
      · obtain ⟨e, he⟩ := hended
        dsimp only
        rw [hp, he]
        exact .inl rfl
      · exact .inr ⟨r, p, ⟨hr, hp⟩, fun e he => hended ⟨e, he⟩⟩

theorem Hosts.other (h : s.Hosts i r p) (hsole : s.Sole i r.player) {t : Thread}
    (ht : t ≠ .run i) : ∃ phase, (s.actThread t).Hosts i { r with phase := phase } p ∧
      r.phase.Like phase ∧ (s.actThread t).Sole i r.player ∧ s.raised ⊆ (s.actThread t).raised ∧
      (s.IsRecalled i → (s.actThread t).IsRecalled i) := by
  by_cases hrun : ∃ j, t = .run j
  · obtain ⟨j, rfl⟩ := hrun
    have hji : j ≠ i := fun he => ht (congrArg Thread.run he)
    dsimp only [actThread]
    rcases s.actRun_cases j with hsame | ⟨r', p', hhosts, hgoing⟩
    · rw [hsame]
      exact ⟨r.phase, h, .refl _, hsole, List.Subset.refl _, id⟩
    · have hplayer : r'.player ≠ r.player := by
        intro he
        obtain ⟨e, he⟩ := hsole j r' hhosts.run hji he
        exact hgoing e he
      have hbeside := actRun_beside hhosts
      obtain ⟨phase, hrun, hlike⟩ := hbeside.runs i r (Ne.symm hji) h.run
      refine ⟨phase, ⟨hrun, (hbeside.players _ (Ne.symm hplayer)).trans h.player⟩, hlike,
        hsole.beside hbeside fun r'' hr'' _ => ?_, hbeside.raised, hbeside.recalled i (Ne.symm hji)⟩
      rw [hbeside.own (fun r₀ hr₀ => by rw [hhosts.run] at hr₀; cases hr₀; rfl) r'' hr'']
      exact hplayer
  · have hpasses : Passes s (s.actThread t) := passes_actThread fun j hj => hrun ⟨j, hj⟩
    have hkeeps : Keeps s (s.actThread t) := keeps_actThread fun j hj => hrun ⟨j, hj⟩
    have hbeside : Beside i r.player s (s.actThread t) := hpasses.beside hkeeps
    obtain ⟨phase, hhosts, hlike⟩ := h.passes hpasses
    exact ⟨phase, hhosts, hlike, hsole.beside hbeside fun _ _ hii => absurd rfl hii, hkeeps.raised,
      hkeeps.recalled i⟩

end

end Ostinato.Live.Stage
