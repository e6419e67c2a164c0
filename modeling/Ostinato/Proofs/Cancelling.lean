import Ostinato.Proofs.Signals

/-!
# Cancellation

A run that was asked to stop comes nearer to its end whenever it acts, and once it is over it has but
its deferred listeners to tell (`Gone`). While others act it stands where it stood. So whoever acts, and
in whatever order, it has ended when it has acted five times, cancelled with the counts at which it was
asked (`Halting.acts`, `Halting.ended`).
-/

namespace Ostinato.Live

namespace Stage

/-- A run that was cancelled at `m` and is over, but for deferred listeners that may still be told. -/
structure Gone (s : Stage) (i : Nat) (r : Performance) (p : Player) (m : Machine) : Prop where
  hosts : s.Hosts i r p
  courteous : ∀ l ∈ p.part.listeners, l.IsCourteous
  machine : p.machine = m.cancel
  result : ∃ result, r.phase.Closes result ∧ p.result = some result ∧ CancelledAt m result

/-- A run of the player `who` that was asked to stop when its machine was `m`, and that acts no more
than `turns` times. -/
def Halting (s : Stage) (i who : Nat) (m : Machine) (turns : Nat) : Prop :=
  ∃ r p, r.player = who ∧ s.Sole i who ∧ r.phase.turnsToEnd ≤ turns ∧
    (s.Asked i r p ∧ (s.outset p r).machine = m ∨ s.Gone i r p m)

section
variable {s s' : Stage} {i who turns : Nat} {r : Performance} {p : Player} {m : Machine}
  {phase : Phase}

theorem outset_machine (h : r.phase.Like phase) (s s' : Stage) (p : Player) :
    (s'.outset p { r with phase := phase }).machine = (s.outset p r).machine := by
  unfold outset
  generalize r.phase = phase₀ at h
  cases h with
  | refl => cases phase <;> rfl
  | wait => rfl

theorem Hosts.turnsToEnd_le (h : s.Hosts i r p) (h' : s'.Hosts i { r with phase := phase } p)
    (hlike : r.phase.Like phase) (hrecalled : s.IsRecalled i → s'.IsRecalled i) :
    phase.turnsToEnd ≤ r.phase.turnsToEnd := by
  generalize hphase : r.phase = phase₀ at hlike
  cases hlike with
  | refl => exact Nat.le_refl _
  | wait w w' =>
    show (if w'.recalled then 3 else 4) ≤ if w.recalled then 3 else 4
    by_cases hw : w.recalled = true
    · obtain ⟨w₀, hw₀, hrecalled'⟩ := hrecalled ⟨w, wait?_of_run h.run hphase, hw⟩
      rw [wait?_of_run h'.run rfl] at hw₀
      cases hw₀
      apply Nat.le_of_eq
      rw [if_pos hrecalled', if_pos hw]
    · rw [if_neg hw]
      split <;> omega

theorem Asked.own (h : s.Asked i r p) (hsole : s.Sole i r.player)
    (hturns : r.phase.turnsToEnd ≤ turns) :
    (s.actRun i).Halting i r.player (s.outset p r).machine (turns - 1) := by
  have hbeside := actRun_beside h.hosts
  have hsole' : (s.actRun i).Sole i r.player :=
    hsole.beside hbeside fun _ _ hii => absurd rfl hii
  cases h.actRun with
  | going phase hbears hopen hless =>
    obtain ⟨r', p', hhosts, hplayer, hsignal, hphase, hpart, haccount, -⟩ := hbears
    have hfresh : r'.phase ≠ .fresh := by
      intro he
      rw [← hphase, he] at hless
      exact absurd (Nat.lt_of_lt_of_le hless r.phase.turnsToEnd_le) (Nat.lt_irrefl 5)
    have houtset : (s.actRun i).outset p' r' = s.outset p r := (outset_eq hfresh).trans haccount
    refine ⟨r', p', hplayer, hsole', by rw [hphase]; omega, .inl ⟨⟨hhosts, hpart ▸ h.courteous,
      hpart ▸ h.interval, hphase ▸ hopen, ?_, houtset ▸ h.running⟩,
      congrArg Account.machine houtset⟩⟩
    rw [hsignal, isRaised_iff]
    exact hbeside.raised (isRaised_iff.mp h.raised)
  | stopped phase b result hbears hcloses hstops =>
    obtain ⟨r', p', hhosts, hplayer, -, hphase, hpart, haccount, hlatest⟩ := hbears
    have hmachine : p'.machine = b.machine := congrArg Account.machine haccount
    have hless : phase.turnsToEnd < r.phase.turnsToEnd :=
      Nat.lt_of_le_of_lt hcloses.turnsToEnd_le h.isOpen.turnsToEnd_ge
    exact ⟨r', p', hplayer, hsole', by rw [hphase]; omega, .inr ⟨hhosts, hpart ▸ h.courteous,
      hmachine.trans hstops.machine, result, hphase ▸ hcloses, hlatest, hstops.result⟩⟩

theorem actRun_closes (h : s.Hosts i r p) (hpart : ∀ l ∈ p.part.listeners, l.IsCourteous)
    {result : RunResult} (hcloses : r.phase.Closes result) (hlatest : p.result = some result) :
    ∃ phase, (s.actRun i).Bears i r p.part phase (s.account p r) p.result ∧
      phase.Closes result ∧ phase.turnsToEnd ≤ r.phase.turnsToEnd - 1 := by
  have hbears : s.Bears i r p.part r.phase (s.account p r) p.result :=
    ⟨r, p, h, rfl, rfl, rfl, rfl, rfl, rfl⟩
  unfold actRun
  rw [h.run]
  dsimp only
  rw [h.player]
  dsimp only
  generalize hphase : r.phase = phase at hcloses hbears ⊢
  cases phase with
  | telling n next =>
    obtain ⟨phase, htaken⟩ := h.takeOver r rfl rfl p ((s.act p r).tellDeferred p.part n).1
    rw [Act.tellDeferred_account] at htaken
    dsimp only
    rw [Act.tellDeferred_none hpart]
    refine ⟨_, htaken.rephase (.told none next) _ _, ?_, Nat.le_refl _⟩
    cases next with
    | finish result' => exact hcloses
    | _ => exact hcloses.elim
  | told failure next =>
    cases failure with
    | some message => cases next <;> exact hcloses.elim
    | none =>
      cases next with
      | finish result' =>
        refine ⟨_, hbears.setPhase (.ended (.ok (p.result.getD result'))), ?_, Nat.zero_le _⟩
        rw [hlatest]
        rfl
      | _ => exact hcloses.elim
  | ended e => exact ⟨_, hbears, hcloses, Nat.zero_le _⟩
  | _ => exact hcloses.elim

theorem Gone.own (h : s.Gone i r p m) (hsole : s.Sole i r.player)
    (hturns : r.phase.turnsToEnd ≤ turns) :
    (s.actRun i).Halting i r.player m (turns - 1) ∧ (s.actRun i).rig.sinks = s.rig.sinks := by
  obtain ⟨result, hcloses, hlatest, hcancelled⟩ := h.result
  have hsole' : (s.actRun i).Sole i r.player :=
    hsole.beside (actRun_beside h.hosts) fun _ _ hii => absurd rfl hii
  obtain ⟨phase, ⟨r', p', hhosts, hplayer, -, hphase, hpart, haccount, hresult⟩, hcloses', hless⟩ :=
    actRun_closes h.hosts h.courteous hcloses hlatest
  have hmachine : p'.machine = p.machine := congrArg Account.machine haccount
  exact ⟨⟨r', p', hplayer, hsole', by rw [hphase]; omega, .inr ⟨hhosts, hpart ▸ h.courteous,
    hmachine.trans h.machine, result, hphase ▸ hcloses', hresult.trans hlatest, hcancelled⟩⟩,
    congrArg Account.sinks haccount⟩

/-- The step lemma for the run itself. -/
theorem Halting.own (h : s.Halting i who m turns) : (s.actRun i).Halting i who m (turns - 1) := by
  obtain ⟨r, p, rfl, hsole, hturns, ⟨hasked, rfl⟩ | hgone⟩ := h
  · exact hasked.own hsole hturns
  · exact (hgone.own hsole hturns).1

/-- The step lemma for all others. -/
theorem Halting.other (h : s.Halting i who m turns) {t : Thread} (ht : t ≠ .run i) :
    (s.actThread t).Halting i who m turns := by
  obtain ⟨r, p, rfl, hsole, hturns, ⟨hasked, rfl⟩ | hgone⟩ := h
  · obtain ⟨phase, hhosts, hlike, hsole', hraised, hrecalled⟩ := hasked.hosts.other hsole ht
    have hm := outset_machine hlike s (s.actThread t) p
    have hless := hasked.hosts.turnsToEnd_le hhosts hlike hrecalled
    refine ⟨{ r with phase := phase }, p, rfl, hsole', Nat.le_trans hless hturns, .inl ⟨⟨hhosts,
      hasked.courteous, hasked.interval, hlike.isOpen hasked.isOpen, ?_, hm ▸ hasked.running⟩, hm⟩⟩
    exact isRaised_iff.mpr (hraised (isRaised_iff.mp hasked.raised))
  · obtain ⟨result, hcloses, hlatest, hcancelled⟩ := hgone.result
    obtain ⟨phase, hhosts, hlike, hsole', -, hrecalled⟩ := hgone.hosts.other hsole ht
    have hless := hgone.hosts.turnsToEnd_le hhosts hlike hrecalled
    exact ⟨{ r with phase := phase }, p, rfl, hsole', Nat.le_trans hless hturns, .inr ⟨hhosts,
      hgone.courteous, hgone.machine, result, hlike.closes hcloses, hlatest, hcancelled⟩⟩

theorem Halting.pass (h : s.Halting i who m turns) (hruns : s'.runs = s.runs)
    (hplayers : s'.players = s.players) (hraised : s.raised ⊆ s'.raised) :
    s'.Halting i who m turns := by
  obtain ⟨r, p, hplayer, hsole, hturns, hstands⟩ := h
  have hhosts : s.Hosts i r p → s'.Hosts i r p := by
    intro hhosts
    exact ⟨hruns ▸ hhosts.run, hplayers ▸ hhosts.player⟩
  have hm := outset_machine (.refl r.phase) s s' p
  refine ⟨r, p, hplayer, fun j r' hr' => hsole j r' (hruns ▸ hr'), hturns, ?_⟩
  rcases hstands with ⟨hasked, hstand⟩ | hgone
  · refine .inl ⟨⟨hhosts hasked.hosts, hasked.courteous, hasked.interval, hasked.isOpen, ?_,
      hm ▸ hasked.running⟩, hm.trans hstand⟩
    exact isRaised_iff.mpr (hraised (isRaised_iff.mp hasked.raised))
  · exact .inr ⟨hhosts hgone.hosts, hgone.courteous, hgone.machine, hgone.result⟩

theorem Halting.ended (h : s.Halting i who m 0) :
    ∃ result, s.ending? i = some (.ok result) ∧ CancelledAt m result := by
  obtain ⟨r, p, -, -, hturns, ⟨hasked, -⟩ | hgone⟩ := h
  · exact absurd (Nat.le_trans hasked.isOpen.turnsToEnd_ge hturns) (by decide)
  · obtain ⟨result, hcloses, -, hcancelled⟩ := hgone.result
    refine ⟨result, ?_, hcancelled⟩
    show s.runs[i]?.bind (fun r => r.phase.ending?) = _
    rw [hgone.hosts.run]
    show r.phase.ending? = _
    unfold Phase.Closes at hcloses
    split at hcloses
    · rename_i hphase
      rw [hphase] at hturns
      cases hturns
    · rename_i hphase
      rw [hphase] at hturns
      cases hturns
    · rename_i hphase
      rw [hphase, hcloses]
      rfl
    · exact hcloses.elim

/-- A run heeds the request that was made at `m`: it comes nearer to its end when it acts or stops
where it is, and once it is over it dispatches nothing. -/
def Heeds (s : Stage) (i : Nat) (m : Machine) : Prop :=
  (∃ r p, s.Asked i r p ∧ (s.outset p r).machine = m ∧ (s.actRun i).Nears i r p (s.outset p r)) ∨
    ∃ r p, s.Gone i r p m ∧ (s.actRun i).rig.sinks = s.rig.sinks

theorem Halting.heeds (h : s.Halting i who m turns) : s.Heeds i m := by
  obtain ⟨r, p, rfl, hsole, hturns, ⟨hasked, hm⟩ | hgone⟩ := h
  · exact .inl ⟨r, p, hasked, hm, hasked.actRun⟩
  · exact .inr ⟨r, p, hgone, (hgone.own hsole hturns).2⟩

end

/-! ## Whoever acts -/

/-- What can become of a stage on which the `i`-th run acts so many times. Anybody acts, whether it is
their turn or not, and in between time passes, the rig is used and signals are raised. -/
inductive Acts (i : Nat) (s₀ : Stage) : Nat → Stage → Prop where
  | start : Acts i s₀ 0 s₀
  | own {n : Nat} {s : Stage} (h : Acts i s₀ n s) : Acts i s₀ (n + 1) (s.actRun i)
  | other {n : Nat} {s : Stage} (h : Acts i s₀ n s) {t : Thread} (ht : t ≠ .run i) :
    Acts i s₀ n (s.actThread t)
  | pass {n : Nat} {s s' : Stage} (h : Acts i s₀ n s) (hruns : s'.runs = s.runs)
    (hplayers : s'.players = s.players) (hraised : s.raised ⊆ s'.raised) : Acts i s₀ n s'

section
variable {s₀ s s' : Stage} {i who n turns : Nat} {m : Machine}

/-- The run lemma: whoever acts and in whatever order, the run comes to no further instruction, and
nearer to its end whenever it acts. -/
theorem Halting.acts (h : s₀.Halting i who m turns) (hs : Acts i s₀ n s) :
    s.Halting i who m (turns - n) := by
  induction hs with
  | start => exact h
  | own _ ih => exact ih.own
  | other _ ht ih => exact ih.other ht
  | pass _ hruns hplayers hraised ih => exact ih.pass hruns hplayers hraised

theorem Acts.act (h : Acts i s₀ n s) (t : Thread) : ∃ n, Acts i s₀ n (s.actThread t) := by
  by_cases ht : t = .run i
  · subst ht
    exact ⟨n + 1, h.own⟩
  · exact ⟨n, h.other ht⟩

theorem Acts.wakeDue (h : Acts i s₀ n s) (fuel : Nat) : Acts i s₀ n (s.wakeDue fuel) := by
  induction fuel generalizing s with
  | zero => exact h
  | succ fuel ih =>
    unfold Stage.wakeDue
    split
    · split
      · exact ih (h.pass rfl rfl (List.Subset.refl _))
      · exact h
    · exact h

theorem Acts.dropStale (h : Acts i s₀ n s) (fuel : Nat) : Acts i s₀ n (s.dropStale fuel) := by
  induction fuel generalizing s with
  | zero => exact h
  | succ fuel ih =>
    unfold Stage.dropStale
    split
    · split
      · exact h
      · exact ih (h.pass rfl rfl (List.Subset.refl _))
    · exact h

theorem Acts.beginRound (h : Acts i s₀ n s) : Acts i s₀ n s.beginRound :=
  (h.wakeDue s.timers.size).pass rfl rfl (List.Subset.refl _)

theorem Acts.moveTo (h : Acts i s₀ n s) (time : Binary64) : Acts i s₀ n (s.moveTo time) := by
  unfold Stage.moveTo
  split
  · exact h.pass rfl rfl (List.Subset.refl _)
  · exact h

theorem Acts.advance (h : Acts i s₀ n s) (hs : s.advance = some s') : ∃ n, Acts i s₀ n s' := by
  unfold Stage.advance at hs
  split at hs
  · rename_i left rounds t rest _ _
    have hnext : Acts i s₀ n { s with left := left, ready := rest } :=
      h.pass rfl rfl (List.Subset.refl _)
    dsimp only at hs
    split at hs
    · cases hs
      exact hnext.act t
    · cases hs
      exact ⟨n, hnext.pass rfl rfl (List.Subset.refl _)⟩
  · have hfresh := h.dropStale s.timers.size
    unfold nextRound at hs
    dsimp only at hs
    split at hs
    · cases hs
    · cases hs
      exact ⟨n, (hfresh.moveTo _).beginRound⟩
    · cases hs
      exact ⟨n, hfresh.beginRound⟩

theorem Acts.goUntil (h : Acts i s₀ n s) (done : Stage → Bool) (fuel : Nat) :
    ∃ n, Acts i s₀ n (s.goUntil done fuel) := by
  induction fuel generalizing n s with
  | zero => exact ⟨n, h⟩
  | succ fuel ih =>
    unfold Stage.goUntil
    split
    · exact ⟨n, h⟩
    · split
      · exact ⟨n, h⟩
      · rename_i s' hs
        obtain ⟨n', hnext⟩ := h.advance hs
        exact ih hnext

end

end Stage

/-! ## Promptness -/

/-- What holds of a run by itself wherever it stands. -/
structure IsPrompt (part : Part) (cue : Cue) (a₀ : Act) (pauses last left : Nat) (a : Act) :
    Prop where
  plays : ∀ fuel, play part cue (pauses + fuel + 1) a₀ = playFrom part cue (fuel + 1) left a
  /-- If it is asked to stop there, it stops there. -/
  stops : ∀ fuel, StopsAt part a (playFrom part cue (fuel + 2) left a.raise)
  /-- If it has been asked before, the whole run stops there. -/
  ends : a.cancelled = true → ∀ fuel, StopsAt part a (play part cue (pauses + fuel + 2) a₀)
  /-- Since its last scheduling point it has executed an interval of instructions but for those left. -/
  interval : a.machine.executed + left = last + part.yieldInterval
  turn : 0 < left → (a.turn part).1.machine.executed ≤ last + part.yieldInterval
  /-- It comes to its next scheduling point, or to its end. -/
  next : ∃ pauses' left' b, Reaches part cue a₀ pauses' last left' b ∧ left' ≤ left ∧
    AtPoint part b left'

theorem Reaches.isPrompt {part : Part} {cue : Cue} {a₀ a : Act} {pauses last left : Nat}
    (h : Reaches part cue a₀ pauses last left a) (hpart : ∀ l ∈ part.listeners, l.IsCourteous)
    (hinterval : 1 ≤ part.yieldInterval) : IsPrompt part cue a₀ pauses last left a := by
  obtain ⟨hgoing, hexecuted⟩ := h.running
  have hstops (fuel : Nat) : StopsAt part a (playFrom part cue (fuel + 2) left a.raise) :=
    playFrom_stops (a := a.raise) hpart hinterval hgoing rfl cue fuel left
  refine ⟨h.play, hstops, fun hc fuel => ?_, hexecuted, fun hleft => ?_, h.next hpart⟩
  · have hstop := hstops fuel
    rw [Act.raise_eq hc, ← h.play (fuel + 1)] at hstop
    exact hstop
  · have hturn := a.turn_executed_le part
    omega

/-- **Cancellation is prompt.** Wherever a run by itself stands that is asked to stop, be it before it
begins, in a call of a listener or by others when it gives way, it executes no further instruction,
dispatches nothing but releases and answers that it was cancelled, with the counts of that moment. A
request in the midst of calls comes to the same as one right after them. From one scheduling point to
the next no run executes more than its interval of instructions. On stage too a run that was asked to
stop does nothing when it acts but come to its end, and if its player has no other run, it ends
however others act in between. -/
theorem cancellation_is_prompt :
    (∀ (part : Part) (cue : Cue) (a₀ : Act), (∀ l ∈ part.listeners, l.IsCourteous) →
      1 ≤ part.yieldInterval →
      (∃ a, Reaches part cue a₀ 0 0 part.yieldInterval a ∧
        (a₀.cancelled = true → a.cancelled = true)) ∧
      ∀ pauses last left a, Reaches part cue a₀ pauses last left a →
        IsPrompt part cue a₀ pauses last left a) ∧
    (∀ (a : Act) (part : Part) (e : Event) (n : Notice) (ls : List Listener),
      a.raise.enter part = ((a.enter part).1.raise, (a.enter part).2) ∧
      a.raise.perform part e = ((a.perform part e).1.raise, (a.perform part e).2) ∧
      a.raise.callUntilFailure n ls =
        ((a.callUntilFailure n ls).1.raise, (a.callUntilFailure n ls).2) ∧
      a.raise.callAll n ls = ((a.callAll n ls).1.raise, (a.callAll n ls).2)) ∧
    (∀ (a : Act) (part : Part) (left : Nat),
      (a.stretch part left).1.machine.executed ≤ a.machine.executed + left ∧
      ∀ n left', (a.stretch part left).2 = .listen n left' →
        (a.stretch part left).1.machine.executed + left' ≤ a.machine.executed + left) ∧
    ∀ (s : Stage) (i : Nat) (r : Performance) (p : Player), s.Asked i r p →
      (s.actRun i).Nears i r p (s.outset p r) ∧
      (s.Sole i r.player →
        (∀ turns s', Stage.Acts i s turns s' → s'.Heeds i (s.outset p r).machine ∧
          (5 ≤ turns → ∃ result, s'.ending? i = some (.ok result) ∧
            CancelledAt (s.outset p r).machine result)) ∧
        ∀ done fuel, ∃ turns, Stage.Acts i s turns (s.goUntil done fuel)) := by
  refine ⟨fun part cue a₀ hpart hinterval => ?_, fun a part e n ls => ?_, fun a part left => ?_,
    fun s i r p hasked => ⟨hasked.actRun, fun hsole => ⟨fun turns s' hacts => ?_, ?_⟩⟩⟩
  · exact ⟨reaches_start hpart cue a₀, fun _ _ _ _ h => h.isPrompt hpart hinterval⟩
  · exact ⟨a.raise_enter part, a.raise_perform part e, a.raise_callUntilFailure n ls,
      a.raise_callAll n ls⟩
  · exact Act.stretch_executed_le part left a
  · have hhalting : s.Halting i r.player (s.outset p r).machine 5 :=
      ⟨r, p, rfl, hsole, r.phase.turnsToEnd_le, .inl ⟨hasked, rfl⟩⟩
    have hstands := hhalting.acts hacts
    refine ⟨hstands.heeds, fun hturns => ?_⟩
    rw [Nat.sub_eq_zero_of_le hturns] at hstands
    exact hstands.ended
  · exact Stage.Acts.start.goUntil

def drone : Program where
  instructions := #[.send ⟨true, 0, 60, 90, none, ⟨2, 1⟩⟩, .jump ⟨"again", none, some 0, ⟨3, 1⟩⟩]
  labels := [("again", 0)]
  jumpSites := [⟨1, "again", 0, none⟩]

/-- It gives way after two instructions, and a listener asks it to stop at the second note. -/
def dronePart : Part where
  router := { default := some "main" }
  listeners := [{ id := "stop", occasion := .note, reaction := Reaction.askAt 2 }]
  yieldInterval := 2

def droneAct : Act where
  machine := Machine.load drone
  rig := { sinks := [("main", .recording)] }

/-- A run of the same program, asked to stop after its first note. -/
def droneStage : Stage where
  rig := droneAct.rig
  players := #[{ machine := droneAct.machine.step.1, part := dronePart }]
  runs := #[{ player := 0, signal := 0, phase := .active 0 }]
  raised := [0]

theorem cancellation_is_prompt_drone :
    (∃ a b r, Reaches dronePart noCue droneAct 1 2 1 a ∧ a.cancelled = true ∧
      play dronePart noCue 3 droneAct = (b, some (.ok r)) ∧
      Stops dronePart.router a.account b.account r ∧ r.executed = 3) ∧
    ∃ r, (Nat.repeat (Stage.actRun · 0) 5 droneStage).ending? 0 = some (.ok r) ∧
      r.state = .cancelled ∧ r.executed = 1 := by
  have hpart : ∀ l ∈ dronePart.listeners, l.IsCourteous :=
    List.forall_mem_singleton.mpr (Reaction.askAt_failure? 2)
  obtain ⟨halone, -, -, hstage⟩ := cancellation_is_prompt
  obtain ⟨-, hprompt⟩ := halone dronePart noCue droneAct hpart (by decide)
  constructor
  · have hstart : Reaches dronePart noCue droneAct 0 0 2 (droneAct.enter dronePart).1 := .start rfl
    have hsent := hstart.more (Prod.ext rfl rfl)
    have hjumped := hsent.more (Prod.ext rfl rfl)
    have hasked := hjumped.yielded.more (Prod.ext rfl rfl)
    obtain ⟨b, r, hb, hstops⟩ := (hprompt _ _ _ _ hasked).ends rfl 0
    exact ⟨_, b, r, hasked, rfl, hb, hstops, hstops.result.executed⟩
  · have hasked : droneStage.Asked 0 { player := 0, signal := 0, phase := .active 0 }
        { machine := droneAct.machine.step.1, part := dronePart } :=
      ⟨⟨rfl, rfl⟩, hpart, by decide, trivial, rfl, rfl⟩
    have hsole : droneStage.Sole 0 0 := by
      intro j r hr hj
      cases j with
      | zero => exact absurd rfl hj
      | succ j => cases hr
    obtain ⟨-, hends⟩ := hstage _ _ _ _ hasked
    obtain ⟨r, hr, hcancelled⟩ := ((hends hsole).1 5 _ Stage.Acts.start.own.own.own.own.own).2
      (Nat.le_refl 5)
    exact ⟨r, hr, hcancelled.state, hcancelled.executed⟩

end Ostinato.Live
