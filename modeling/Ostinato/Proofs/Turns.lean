import Ostinato.Proofs.Beside
import Ostinato.Proofs.Interleaving
import Ostinato.Proofs.Stopping

/-!
# What a run can do when it acts

`Acted r p phase p'` lists everything that a turn of the run `r` of the player `p` can come to: the
phase in which it leaves the run, and the player. `actRun_acted` says that the list is complete, for
any program, listeners and stage, and `actRun_beside` that nothing else changes; so what holds of every
turn is proved by cases on it and no other proof opens the stage.

`Unfolds` is everything that can become of a stage: whoever acts, whenever it is, and whatever the
caller does, who may also put up other listeners at any time. `Upholds.unfolds` is the run lemma for
what concerns one player and its runs.
-/

namespace Ostinato.Live

open Machine (Move)

/-! ## Machines in a stretch -/

namespace Act

theorem turn_moves (a : Act) (part : Part) :
    ∃ moves, (a.turn part).1.machine = a.machine.after moves := by
  cases hc : a.cancelled with
  | true =>
    rw [turn_cancelled hc]
    exact ⟨[.cancel], rfl⟩
  | false => exact ⟨[.step], turn_machine hc part⟩

theorem stretch_moves (part : Part) (left : Nat) (a : Act) :
    ∃ moves, (a.stretch part left).1.machine = a.machine.after moves := by
  induction left generalizing a with
  | zero => exact ⟨[], rfl⟩
  | succ left ih =>
    obtain ⟨moves, hmoves⟩ := a.turn_moves part
    rw [stretch]
    rcases ht : a.turn part with ⟨b, t⟩
    rw [ht] at hmoves
    cases t with
    | more =>
      obtain ⟨later, hlater⟩ := ih b
      exact ⟨moves ++ later, by rw [Machine.after_append, ← hmoves]; exact hlater⟩
    | _ => exact ⟨moves, hmoves⟩

theorem conclude_machine (a : Act) (part : Part) :
    (a.conclude part).1.machine = a.machine :=
  (congrArg Account.machine (conclude_account a part)).trans leave_machine

theorem leave_heard (a : Act) (part : Part) : (a.leave part).heard = a.heard := by
  unfold leave
  split <;> rfl

end Act

/-! ## Turns -/

namespace Player

def played (p : Player) (moves : List Move) (heard : Heard) : Player :=
  { p with machine := p.machine.after moves, heard := heard }

def begun (p : Player) (signal : Nat) : Player :=
  { p with running := true, cancel := some signal }

def left (p : Player) : Player :=
  { p with running := false }

def concluded (p : Player) (result : RunResult) : Player :=
  { p with running := false, result := some result }

end Player

/-- The phases from which a run goes on with its next instruction. -/
def Phase.goesOn : Phase → Bool
  | .active _ | .waiting _ | .told none .begin | .told none (.proceed _) => true
  | _ => false

/-- The phases in which a run is left that is over. -/
inductive Phase.Concludes (result : RunResult) : Phase → Prop where
  | returned : Concludes result (.ended (.ok result))
  | telling : Concludes result (.telling (.stop result) (.finish result))
  | failed {message : String} : Concludes result (.ended (.error (.listener message)))

/-- What a player and its run may come to that go on with the next instruction. -/
inductive Continued (p : Player) : Phase → Player → Prop where
  /-- The run gives way. -/
  | on {phase : Phase} {moves : List Move} {heard : Heard} : phase.isPlaying = true →
      Continued p phase (p.played moves heard)
  /-- It fails, because of a listener or a number too large. -/
  | failed {f : RunFault} {moves : List Move} {heard : Heard} :
      Continued p (.ended (.error f)) (p.played moves heard).left
  | over {phase : Phase} {moves : List Move} {heard : Heard} {emitted : Nat}
      {errors : List OutputFault} :
      phase.Concludes (Run.result (p.machine.after moves) emitted errors "") →
      Continued p phase
        ((p.played moves heard).concluded (Run.result (p.machine.after moves) emitted errors ""))

inductive Acted (r : Performance) (p : Player) : Phase → Player → Prop where
  /-- A plain listener of the start fails. -/
  | refused {message : String} {heard : Heard} : r.phase = .fresh →
      firstFailure p.heard (p.part.audience .start false) = some message →
      Acted r p (.ended (.error (.listener message))) ((p.begun r.signal).played [.reset] heard)
  | begins {heard : Heard} : r.phase = .fresh →
      firstFailure p.heard (p.part.audience .start false) = none →
      Acted r p (.telling .start .begin) ((p.begun r.signal).played [.reset] heard)
  /-- It begins, and goes on at once. -/
  | begun {heard : Heard} {phase : Phase} {p' : Player} : r.phase = .fresh →
      firstFailure p.heard (p.part.audience .start false) = none →
      Continued ((p.begun r.signal).played [.reset] heard) phase p' → Acted r p phase p'
  | continued {phase : Phase} {p' : Player} : r.phase.goesOn = true → Continued p phase p' →
      Acted r p phase p'
  | waits {w w' : Wait} : r.phase = .waiting w → Acted r p (.waiting w') p
  | tells {n : Notice} {next : Errand} {heard : Heard} : r.phase = .telling n next →
      Acted r p (.told (firstFailure p.heard (p.part.audience n true)) next) (p.played [] heard)
  /-- A deferred listener has failed while the run was among its instructions. -/
  | failed {message : String} {left : Nat} : r.phase = .told (some message) (.proceed left) →
      Acted r p (.ended (.error (.listener message))) p.left
  /-- One has failed before, or after. -/
  | spoilt {message : String} {next : Errand} : r.phase = .told (some message) next →
      (∀ left, next ≠ .proceed left) → Acted r p (.ended (.error (.listener message))) p
  | returns {result : RunResult} : r.phase = .told none (.finish result) →
      Acted r p (.ended (.ok (p.result.getD result))) p
  | stays {e : Ending} : r.phase = .ended e → Acted r p (.ended e) p

namespace Stage

/-- The `i`-th run is one of the player `who` and in a phase, and the player is `p`. -/
def Leaves (s : Stage) (i who : Nat) (phase : Phase) (p : Player) : Prop :=
  ∃ r, s.Hosts i r p ∧ r.player = who ∧ r.phase = phase

section
variable {s s' : Stage} {i who : Nat} {r : Performance} {p p' : Player} {phase : Phase}

theorem Leaves.of_eq (h : s.Leaves i who phase p) (hruns : s'.runs = s.runs)
    (hplayers : s'.players = s.players) : s'.Leaves i who phase p := by
  obtain ⟨r, hhosts, hwho, hphase⟩ := h
  exact ⟨r, ⟨hruns ▸ hhosts.run, hplayers ▸ hhosts.player⟩, hwho, hphase⟩

theorem Leaves.setPhase (h : s.Leaves i who phase p) (phase' : Phase) :
    (s.setPhase i phase').Leaves i who phase' p := by
  obtain ⟨r, hhosts, hwho, -⟩ := h
  exact ⟨{ r with phase := phase' }, ⟨modifyRun_self hhosts.run _, hhosts.player⟩, hwho, rfl⟩

theorem Leaves.rephase (h : s.Leaves i who phase p) (phase' : Phase) (rounds : Nat) (t : Thread) :
    ((s.setPhase i phase').enqueue rounds t).Leaves i who phase' p :=
  (h.setPhase phase').of_eq rfl rfl

theorem Leaves.modifyPlayer (h : s.Leaves i who phase p) (f : Player → Player) :
    (s.modifyPlayer who f).Leaves i who phase (f p) := by
  obtain ⟨r, hhosts, hwho, hphase⟩ := h
  subst hwho
  exact ⟨r, ⟨hhosts.run, modifyPlayer_self hhosts.player f⟩, rfl, hphase⟩

theorem Hosts.takeOver_leaves (h : s.Hosts i r p) (r' : Performance) (hr' : r'.player = r.player)
    (p' : Player) (a : Act) : ∃ phase, (s.takeOver i r' p' a).Leaves i r.player phase
      { p' with machine := a.machine, heard := a.heard } := by
  obtain ⟨s₁, -, hstored, hpasses⟩ := h.takeOver_stored r' hr' p' a
  obtain ⟨phase, hhosts, -⟩ := hstored.passes hpasses
  exact ⟨phase, _, hhosts, hr', rfl⟩

theorem Leaves.await (h : s.Leaves i who phase p) (q : Player) (deadline : Binary64) :
    ∃ phase', phase'.isPlaying = true ∧ (s.await i q deadline).Leaves i who phase' p := by
  unfold Stage.await
  dsimp only
  split
  · have hlater : (s.callAt (s.now + coarse q (deadline - s.now)) (.deadline i)).Leaves i who phase
        p := h.of_eq rfl rfl
    exact ⟨_, rfl, hlater.rephase (.waiting { deadline := deadline }) _ _⟩
  · exact ⟨_, rfl, h.rephase (.active q.part.yieldInterval) _ _⟩

theorem Hosts.failRun (h : s.Hosts i r p) (a : Act) (f : RunFault) :
    (s.failRun i r p a f).Leaves i r.player (.ended (.error f))
      { p with machine := a.machine, heard := a.heard, running := false } := by
  obtain ⟨phase, hleaves⟩ := h.takeOver_leaves r rfl p (a.leave p.part)
  have hended := (hleaves.modifyPlayer fun p => { p with running := false }).setPhase
    (.ended (.error f))
  rw [Act.leave_machine, Act.leave_heard] at hended
  exact hended

theorem Hosts.continueRun (h : s.Hosts i r p) (left : Nat) :
    ∃ phase p', (s.continueRun i r p left).Leaves i r.player phase p' ∧
      Continued p phase p' := by
  obtain ⟨moves, hmoves⟩ := Act.stretch_moves p.part left (s.act p r)
  have htaken := fun b => h.takeOver_leaves r rfl p b
  unfold Stage.continueRun
  rcases hb : (s.act p r).stretch p.part left with ⟨b, pause⟩
  rw [hb] at hmoves
  have hmachine : b.machine = p.machine.after moves := hmoves
  have hplayed : ({ p with machine := b.machine, heard := b.heard } : Player) =
      p.played moves b.heard := by rw [hmachine]; rfl
  obtain ⟨phase, hleaves⟩ := htaken b
  rw [hplayed] at hleaves
  cases pause with
  | yield =>
    exact ⟨_, _, hleaves.rephase (.active p.part.yieldInterval) _ _, .on rfl⟩
  | wait due =>
    obtain ⟨phase', hplaying, hwaits⟩ := hleaves.await p (r.start + due)
    exact ⟨_, _, hwaits, .on hplaying⟩
  | listen n left => exact ⟨_, _, hleaves.rephase (.telling n (.proceed left)) _ _, .on rfl⟩
  | failed f =>
    have hfailed := h.failRun b f
    rw [hmachine] at hfailed
    exact ⟨_, _, hfailed, .failed⟩
  | «over» =>
    have hresult := b.conclude_result p.part
    have hsame := b.conclude_machine p.part
    dsimp only
    generalize b.conclude p.part = x at hresult hsame
    obtain ⟨c, result, failure⟩ := x
    dsimp only at hresult hsame ⊢
    obtain ⟨phase', hends⟩ := htaken c
    rw [hsame, hmachine] at hends
    rw [hmachine] at hresult
    have hended := hends.modifyPlayer fun p => { p with running := false, result := some result }
    subst hresult
    cases failure with
    | some message => exact ⟨_, _, hended.setPhase _, .over .failed⟩
    | none =>
      dsimp only
      split
      · exact ⟨_, _, hended.rephase _ _ _, .over .telling⟩
      · exact ⟨_, _, hended.setPhase _, .over .returned⟩

/-! ## Every turn -/

theorem beginRun_acted (h : s.Hosts i r p) (hfresh : r.phase = .fresh) :
    ∃ phase p', (s.beginRun i r p).Leaves i r.player phase p' ∧ Acted r p phase p' := by
  have hmachine : ((s.act { p with running := true, cancel := some r.signal }
      { r with start := s.now }).enter p.part).1.machine = p.machine.reset :=
    congrArg Account.machine (Act.tell_account _ _ _)
  have hfails : ((s.act { p with running := true, cancel := some r.signal }
      { r with start := s.now }).enter p.part).2 =
      firstFailure p.heard (p.part.audience .start false) :=
    Act.callUntilFailure_failure _ _ _
  unfold beginRun
  dsimp only
  generalize (s.act { p with running := true, cancel := some r.signal }
    { r with start := s.now }).enter p.part = x at hmachine hfails ⊢
  obtain ⟨b, failure⟩ := x
  dsimp only at hmachine hfails ⊢
  obtain ⟨phase, hleaves⟩ := h.takeOver_leaves { r with start := s.now } rfl
    { p with running := true, cancel := some r.signal } b
  rw [hmachine] at hleaves
  cases failure with
  | some message =>
    exact ⟨_, _, hleaves.setPhase _, .refused hfresh hfails.symm⟩
  | none =>
    dsimp only
    split
    · exact ⟨_, _, hleaves.rephase _ _ _, .begins hfresh hfails.symm⟩
    · obtain ⟨r', hhosts, hwho, -⟩ := hleaves
      have hplayer := hhosts.player
      rw [hwho] at hplayer
      rw [hhosts.run, hplayer]
      obtain ⟨phase', p', hgoes, hcontinued⟩ := hhosts.continueRun p.part.yieldInterval
      rw [hwho] at hgoes
      exact ⟨phase', p', hgoes, .begun hfresh hfails.symm hcontinued⟩

theorem resumeRun_acted (h : s.Hosts i r p) {failure : Option String} {next : Errand}
    (hphase : r.phase = .told failure next) :
    ∃ phase p', (s.resumeRun i r p failure next).Leaves i r.player phase p' ∧
      Acted r p phase p' := by
  have hhere : s.Leaves i r.player r.phase p := ⟨r, h, rfl, rfl⟩
  cases failure with
  | none =>
    cases next with
    | begin =>
      obtain ⟨phase, p', hgoes, hcontinued⟩ := h.continueRun p.part.yieldInterval
      exact ⟨phase, p', hgoes, .continued (by rw [hphase]; rfl) hcontinued⟩
    | proceed left =>
      obtain ⟨phase, p', hgoes, hcontinued⟩ := h.continueRun left
      exact ⟨phase, p', hgoes, .continued (by rw [hphase]; rfl) hcontinued⟩
    | finish result => exact ⟨_, _, hhere.setPhase _, .returns hphase⟩
  | some message =>
    cases next with
    | proceed left => exact ⟨_, _, h.failRun _ _, .failed hphase⟩
    | begin => exact ⟨_, _, hhere.setPhase _, .spoilt hphase fun _ => Errand.noConfusion⟩
    | finish result => exact ⟨_, _, hhere.setPhase _, .spoilt hphase fun _ => Errand.noConfusion⟩

theorem actWait_acted (h : s.Hosts i r p) {w : Wait} (hphase : r.phase = .waiting w) :
    ∃ phase p', (s.actWait i r p w).Leaves i r.player phase p' ∧ Acted r p phase p' := by
  unfold actWait
  split
  · unfold afterWait
    dsimp only
    -- Time may move on first.
    have hmoved (t : Binary64) : (s.moveTo t).Hosts i r p := by
      unfold moveTo
      split
      · exact ⟨h.run, h.player⟩
      · exact h
    have hgoes : ∀ s' : Stage, s'.Hosts i r p → ∃ phase p',
        (s'.continueRun i r p p.part.yieldInterval).Leaves i r.player phase p' ∧
          Acted r p phase p' := by
      intro s' h'
      obtain ⟨phase, p', hgoes, hcontinued⟩ := h'.continueRun p.part.yieldInterval
      exact ⟨phase, p', hgoes, .continued (by rw [hphase]; rfl) hcontinued⟩
    split
    · exact hgoes _ (hmoved _)
    · exact hgoes _ h
  · obtain ⟨phase, hhosts, hlike⟩ := h.passes (passes_recallLookout (wait?_of_run h.run hphase))
    rw [hphase] at hlike
    have hleaves : Leaves _ i r.player phase p := ⟨_, hhosts, rfl, rfl⟩
    cases hlike with
    | refl => exact ⟨_, p, hleaves, .waits hphase⟩
    | wait _ w' => exact ⟨_, p, hleaves, .waits hphase⟩

/-- **Everything a run can do when it acts.** -/
theorem actRun_acted (h : s.Hosts i r p) :
    ∃ phase p', (s.actRun i).Leaves i r.player phase p' ∧ Acted r p phase p' := by
  unfold actRun
  rw [h.run]
  dsimp only
  rw [h.player]
  dsimp only
  split
  · rename_i hphase
    exact beginRun_acted h hphase
  · rename_i left hphase
    obtain ⟨phase, p', hgoes, hcontinued⟩ := h.continueRun left
    exact ⟨phase, p', hgoes, .continued (by rw [hphase]; rfl) hcontinued⟩
  · rename_i w hphase
    exact actWait_acted h hphase
  · rename_i n next hphase
    obtain ⟨phase, hleaves⟩ := h.takeOver_leaves r rfl p ((s.act p r).tellDeferred p.part n).1
    have hmachine : ((s.act p r).tellDeferred p.part n).1.machine = p.machine :=
      congrArg Account.machine (Act.tellDeferred_account _ _ _)
    have hfailure : ((s.act p r).tellDeferred p.part n).2 =
        firstFailure p.heard (p.part.audience n true) := Act.callAll_failure _ _ _
    rw [hmachine] at hleaves
    rw [hfailure]
    exact ⟨_, _, hleaves.rephase _ _ _, .tells hphase⟩
  · rename_i failure next hphase
    exact resumeRun_acted h hphase
  · rename_i e hphase
    exact ⟨_, p, ⟨r, h, rfl, hphase⟩, .stays hphase⟩

end

/-! ## Whatever happens -/

/-- What a caller may make of a player: it is listened to by others, if they may, or is to give way more
often. What it plays stays, and how far it has come. -/
structure Rearranged (may : List Listener → Prop) (p p' : Player) : Prop where
  machine : p'.machine = p.machine
  running : p'.running = p.running
  result : p'.result = p.result
  listeners : p'.part.listeners = p.part.listeners ∨ may p'.part.listeners

/-- What can become of a stage. Anybody acts, whether it is their turn or not; time passes and signals
are raised; players are run, started and rearranged; and a run is made to give way after any number of
instructions. So what a listener does at one of its calls need not be what it does at another. -/
inductive Unfolds (may : Nat → List Listener → Prop) (s₀ : Stage) : Stage → Prop where
  | start : Unfolds may s₀ s₀
  | act {s : Stage} (h : Unfolds may s₀ s) (t : Thread) : Unfolds may s₀ (s.actThread t)
  | pass {s s' : Stage} (h : Unfolds may s₀ s) (hs : Passes s s') : Unfolds may s₀ s'
  | call {s : Stage} (h : Unfolds may s₀ s) (who signal : Nat) :
      Unfolds may s₀ (s.addRun who signal).1
  | launch {s : Stage} (h : Unfolds may s₀ s) (who : Nat) : Unfolds may s₀ (s.startPlayer who)
  | arrange {s : Stage} (h : Unfolds may s₀ s) (who : Nat) {f : Player → Player}
      (hf : ∀ p, Rearranged (may who) p (f p)) : Unfolds may s₀ (s.modifyPlayer who f)
  | limit {s : Stage} (h : Unfolds may s₀ s) (i n : Nat) :
      Unfolds may s₀ (s.modifyRun i fun r => { r with phase := r.phase.limit n })

section
variable {s s' : Stage} {i j who : Nat} {r : Performance} {p : Player}

theorem of_getElem?_modify {α : Type} {xs : Array α} {i j : Nat} {f : α → α} {b : α}
    (h : (xs.modify i f)[j]? = some b) : ∃ a, xs[j]? = some a ∧ b = if i = j then f a else a := by
  rw [Array.getElem?_modify] at h
  split at h
  · rename_i hij
    obtain ⟨a, ha, rfl⟩ := Option.map_eq_some_iff.mp h
    exact ⟨a, ha, (if_pos hij).symm⟩
  · rename_i hij
    exact ⟨b, h, (if_neg hij).symm⟩

theorem of_addRun {signal : Nat} (h : (s.addRun who signal).1.runs[j]? = some r) :
    s.runs[j]? = some r ∨ j = s.runs.size ∧ r = { player := who, signal := signal } := by
  have hpushed : (s.runs.push { player := who, signal := signal })[j]? = some r := h
  rw [Array.getElem?_push] at hpushed
  split at hpushed
  · rename_i hj
    exact .inr ⟨hj, (Option.some.inj hpushed).symm⟩
  · exact .inl hpushed

theorem addRun_run (h : s.runs[j]? = some r) (who signal : Nat) :
    (s.addRun who signal).1.runs[j]? = some r := by
  obtain ⟨hlt, -⟩ := Array.getElem?_eq_some_iff.mp h
  show (s.runs.push _)[j]? = some r
  rw [Array.getElem?_push, if_neg (Nat.ne_of_lt hlt), h]

theorem addRun_self (s : Stage) (who signal : Nat) :
    (s.addRun who signal).1.runs[s.runs.size]? = some { player := who, signal := signal } :=
  Array.getElem?_push_size

/-- A player that is not running is started with a new run. -/
def launched (s : Stage) (who : Nat) : Stage :=
  (s.newSignal.1.addRun who s.signals).1.modifyPlayer who fun p =>
    { p with running := true, cancel := some s.signals, task := some s.runs.size }

theorem startPlayer_idle (hp : s.players[who]? = some p) (h : p.running = false) :
    s.startPlayer who = (s.launched who).enqueue 0 (.run s.runs.size) := by
  unfold startPlayer
  rw [hp]
  dsimp only
  rw [h, if_neg Bool.false_ne_true]
  rfl

theorem startPlayer_running (hp : s.players[who]? = some p) (h : p.running = true) :
    s.startPlayer who = s := by
  unfold startPlayer
  rw [hp]
  dsimp only
  rw [if_pos h]

theorem startPlayer_cases (s : Stage) (who : Nat) : s.startPlayer who = s ∨
    s.startPlayer who = (s.launched who).enqueue 0 (.run s.runs.size) := by
  cases hp : s.players[who]? with
  | none =>
    unfold startPlayer
    rw [hp]
    exact .inl rfl
  | some p =>
    cases h : p.running with
    | true => exact .inl (startPlayer_running hp h)
    | false => exact .inr (startPlayer_idle hp h)

end

/-! ## What the caller can do -/

section
variable {may : Nat → List Listener → Prop} {s₀ s : Stage}

theorem Unfolds.goUntil (h : Unfolds may s₀ s) (done : Stage → Bool) (fuel : Nat) :
    Unfolds may s₀ (s.goUntil done fuel) :=
  goUntil_induct (fun _ _ h hs => .pass h hs) (fun _ t h => .act h t) h done fuel

/-- A signal is made and may be raised now or later. -/
theorem Unfolds.signalled (h : Unfolds may s₀ s) (c : Cancellation) :
    Unfolds may s₀ (((s.newSignal.1.raiseIf s.newSignal.2 c.beforehand).raiseAfter s.newSignal.2
      c.after).raiseAtYield s.newSignal.2 c.atYield) := by
  have hsignal : Unfolds may s₀ s.newSignal.1 := h.pass (.of_eq rfl rfl rfl)
  have hraised : Unfolds may s₀ (s.newSignal.1.raiseIf s.newSignal.2 c.beforehand) := by
    unfold raiseIf
    split
    · exact hsignal.pass (passes_raise _ _)
    · exact hsignal
  have hlater : Unfolds may s₀
      ((s.newSignal.1.raiseIf s.newSignal.2 c.beforehand).raiseAfter s.newSignal.2 c.after) := by
    cases c.after with
    | none => exact hraised
    | some t => exact hraised.pass (.of_eq rfl rfl rfl)
  cases c.atYield with
  | none => exact hlater
  | some k => exact hlater.pass (.of_eq rfl rfl rfl)

theorem Unfolds.runPlayer (h : Unfolds may s₀ s) (who : Nat) (c : Cancellation) (fuel : Nat) :
    Unfolds may s₀ (s.runPlayer who c fuel).1 :=
  (((h.signalled c).call who s.newSignal.2).act (.run _)).goUntil _ fuel

theorem Unfolds.goUntilAwake (h : Unfolds may s₀ s) (fuel : Nat) :
    Unfolds may s₀ (s.goUntilAwake fuel) := by
  have hasleep : Unfolds may s₀ { s with hostAwake := false } := h.pass (.of_eq rfl rfl rfl)
  exact hasleep.goUntil _ fuel

theorem Unfolds.sleep (h : Unfolds may s₀ s) (seconds : Binary64) (fuel : Nat) :
    Unfolds may s₀ (s.sleep seconds fuel) := by
  unfold Stage.sleep
  dsimp only
  split
  · have hready : Unfolds may s₀ (s.enqueue 0 .host) := h.pass (.of_eq rfl rfl rfl)
    exact hready.goUntilAwake fuel
  · have hlater : Unfolds may s₀ (s.callAt (s.now + seconds) .host) := h.pass (.of_eq rfl rfl rfl)
    exact hlater.goUntilAwake fuel

theorem Unfolds.stopPlayer (h : Unfolds may s₀ s) (who fuel : Nat) :
    Unfolds may s₀ (s.stopPlayer who fuel).1 := by
  have hawaited {s : Stage} (h : Unfolds may s₀ s) (i : Nat) :
      Unfolds may s₀ (s.awaitRun i fuel) := by
    unfold awaitRun
    split
    · exact h
    · have hready : Unfolds may s₀ ((s.goUntil (hasEnded i) fuel).enqueue 0 .host) :=
        (h.goUntil (hasEnded i) fuel).pass (.of_eq rfl rfl rfl)
      exact hready.goUntilAwake fuel
  unfold Stage.stopPlayer
  split
  · exact h
  · rename_i p _
    have hcancelled : Unfolds may s₀ (s.cancelPlayer p) := by
      unfold cancelPlayer
      split
      · exact h.pass (passes_raise _ _)
      · exact h
    dsimp only
    split
    · exact hcancelled
    · rename_i i _
      split
      · exact hawaited hcancelled i
      · exact (hawaited hcancelled i).arrange who fun p => ⟨rfl, rfl, rfl, .inl rfl⟩

theorem Unfolds.runAll (h : Unfolds may s₀ s) (c : Cancellation) (fuel : Nat) :
    Unfolds may s₀ (s.runAll c fuel).1 := by
  have hadded {s : Stage} (h : Unfolds may s₀ s) (signal : Nat) (who : List Nat) :
      Unfolds may s₀ (s.addRuns signal who).1 := by
    induction who generalizing s with
    | nil => exact h
    | cons q who ih =>
      have hready : Unfolds may s₀ ((s.addRun q signal).1.enqueue 0 (.run (s.addRun q signal).2)) :=
        (h.call q signal).pass (.of_eq rfl rfl rfl)
      exact ih hready
  exact (hadded (h.signalled c) _ _).goUntil _ fuel

end

/-! ## What lasts -/

/-- Something is true of the player `who`, and something of the phases of its runs. -/
structure Upholds (who : Nat) (J : Player → Prop) (K : Phase → Prop) (s : Stage) : Prop where
  player : ∀ p, s.players[who]? = some p → J p
  runs : ∀ (i : Nat) (r : Performance), s.runs[i]? = some r → r.player = who → K r.phase

/-- It lasts when a run acts, and whatever the caller does. -/
structure Lasting (may : List Listener → Prop) (J : Player → Prop) (K : Phase → Prop) : Prop where
  acted : ∀ {r : Performance} {p p' : Player} {phase : Phase}, Acted r p phase p' → J p →
    K r.phase → J p' ∧ K phase
  fresh : K .fresh
  like : ∀ {a b : Phase}, a.Like b → K a → K b
  limit : ∀ {phase : Phase} (n : Nat), K phase → K (phase.limit n)
  launched : ∀ {p : Player} (signal i : Nat), J p →
    J { p with running := true, cancel := some signal, task := some i }
  rearranged : ∀ {p p' : Player}, Rearranged may p p' → J p → J p'

section
variable {who : Nat} {J : Player → Prop} {K : Phase → Prop} {s s' s₀ : Stage}

theorem Upholds.passes (hlike : ∀ {a b : Phase}, a.Like b → K a → K b) (h : s.Upholds who J K)
    (hs : Passes s s') : s'.Upholds who J K := by
  refine ⟨fun p hp => h.player p (hs.players ▸ hp), fun i r' hr' hwho => ?_⟩
  obtain ⟨r, hr⟩ := exists_run hs.size hr'
  obtain ⟨phase, hsome, hphase⟩ := hs.runs i r hr
  rw [hr'] at hsome
  cases hsome
  exact hlike hphase (h.runs i r hr hwho)

theorem Upholds.modifyPlayer (h : s.Upholds who J K) {q : Nat} {f : Player → Player}
    (hf : q = who → ∀ p, J p → J (f p)) : (s.modifyPlayer q f).Upholds who J K := by
  refine ⟨fun p hp => ?_, h.runs⟩
  obtain ⟨p₀, hp₀, rfl⟩ := of_getElem?_modify hp
  split
  · rename_i hq
    exact hf hq p₀ (h.player p₀ hp₀)
  · exact h.player p₀ hp₀

theorem Upholds.addRun (hfresh : K .fresh) (h : s.Upholds who J K) (q signal : Nat) :
    (s.addRun q signal).1.Upholds who J K := by
  refine ⟨h.player, fun i r hr hwho => ?_⟩
  rcases of_addRun hr with hr | ⟨-, rfl⟩
  · exact h.runs i r hr hwho
  · exact hfresh

variable {may : Nat → List Listener → Prop} (hlasts : Lasting (may who) J K)
include hlasts

/-- The step lemma. -/
theorem Upholds.actRun (h : s.Upholds who J K) (i : Nat) : (s.actRun i).Upholds who J K := by
  rcases s.actRun_cases i with hsame | ⟨r, p, hhosts, -⟩
  · rw [hsame]
    exact h
  obtain ⟨phase, p', ⟨r', hhosts', hplayer, rfl⟩, hacted⟩ := actRun_acted hhosts
  have hbeside := actRun_beside hhosts
  have hown : r.player = who → J p' ∧ K r'.phase := by
    intro hwho
    exact hlasts.acted hacted (h.player p (hwho ▸ hhosts.player)) (h.runs i r hhosts.run hwho)
  refine ⟨fun q hq => ?_, fun j r₁ hr₁ hwho => ?_⟩
  · by_cases hwho : r.player = who
    · have hp' := hhosts'.player
      rw [hplayer, hwho, hq] at hp'
      cases hp'
      exact (hown hwho).1
    · rw [hbeside.players who (Ne.symm hwho)] at hq
      exact h.player q hq
  · by_cases hji : j = i
    · subst hji
      have hr' := hhosts'.run
      rw [hr₁] at hr'
      cases hr'
      exact (hown (hplayer.symm.trans hwho)).2
    · obtain ⟨r₀, phase, hr₀, rfl, hlike⟩ := hbeside.other hji hr₁
      exact hlasts.like hlike (h.runs j r₀ hr₀ hwho)

/-- The run lemma. -/
theorem Upholds.unfolds (h₀ : s₀.Upholds who J K) (h : Unfolds may s₀ s) : s.Upholds who J K := by
  induction h with
  | start => exact h₀
  | act _ t ih =>
    by_cases ht : ∃ i, t = .run i
    · obtain ⟨i, rfl⟩ := ht
      exact ih.actRun hlasts i
    · exact ih.passes hlasts.like (passes_actThread fun i hi => ht ⟨i, hi⟩)
  | pass _ hs ih => exact ih.passes hlasts.like hs
  | call _ q signal ih => exact ih.addRun hlasts.fresh q signal
  | @launch s _ q ih =>
    rcases s.startPlayer_cases q with hsame | hlaunched
    · rw [hsame]
      exact ih
    · have hsignal : s.newSignal.1.Upholds who J K := ih.passes hlasts.like (.of_eq rfl rfl rfl)
      have hstarted : (s.launched q).Upholds who J K :=
        (hsignal.addRun hlasts.fresh q s.signals).modifyPlayer fun _ p =>
          hlasts.launched s.signals s.runs.size
      rw [hlaunched]
      exact hstarted.passes hlasts.like (.of_eq rfl rfl rfl)
  | arrange _ q hf ih =>
    refine ih.modifyPlayer fun hq p => ?_
    subst hq
    exact hlasts.rearranged (hf p)
  | limit _ i n ih =>
    refine ⟨ih.player, fun j r hr hwho => ?_⟩
    obtain ⟨r₀, hr₀, rfl⟩ := of_getElem?_modify hr
    split at hwho
    · rename_i hij
      rw [if_pos hij]
      exact hlasts.limit n (ih.runs j r₀ hr₀ hwho)
    · rename_i hij
      rw [if_neg hij]
      exact ih.runs j r₀ hr₀ hwho

end

end Stage

end Ostinato.Live
