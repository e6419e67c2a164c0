import Ostinato.Proofs.Passing
import Ostinato.Proofs.Performing

/-!
# A run on stage

The stage decides when a run acts, and how often it is cancelled, waited for and told of; what the
run has done is in its account. So when all others have ended, its account stands as the run's phase
says (`Solo`), whoever acts next: threads other than the run itself change nothing but the
bookkeeping of its wait, and the run itself goes by stretches. When the run has ended, its last phase
tells how (`runPlayer_ends`).
-/

namespace Ostinato.Live

/-- How the account of a run stands in each of its phases, `latest` being the latest result of its
player. -/
def Phase.Stands (o : Outset) (a : Account) (latest : Option RunResult) : Phase → Prop
  | .fresh => a.machine.program = o.program ∧ a.sinks = o.sinks
  | .telling _ .begin | .told _ .begin => a = o.account 0
  | .active _ | .waiting _ | .telling _ (.proceed _) | .told _ (.proceed _) => ∃ n, o.Underway n a
  | .telling _ (.finish r) | .told _ (.finish r) => latest = some r ∧ o.Settled a r
  | .ended e => Ends o a e

theorem Phase.Like.stands {a b : Phase} (h : Like a b) {o : Outset} {acc : Account}
    {latest : Option RunResult} (ha : a.Stands o acc latest) : b.Stands o acc latest := by
  cases h with
  | refl => exact ha
  | wait => exact ha

theorem Phase.Stands.underway {o : Outset} {a : Account} {latest : Option RunResult} {phase : Phase}
    (h : phase.Stands o a latest) (hplaying : phase.isPlaying = true) : ∃ n, o.Underway n a := by
  unfold Phase.isPlaying at hplaying
  split at hplaying
  · exact h
  · exact h
  · exact h
  · exact h
  · cases hplaying

namespace Stage

/-- The only run that has not ended is `r`, one of the player `p`. -/
structure Cast (who : Nat) (part : Part) (me : Nat) (runs : Array Performance)
    (players : Array Player) (r : Performance) (p : Player) : Prop where
  run : runs[me]? = some r
  others : ∀ i r', runs[i]? = some r' → i ≠ me → ∃ e, r'.phase = .ended e
  player : players[who]? = some p
  mine : r.player = who
  plays : p.part = part

/-- The account of a run on stage. -/
def account (s : Stage) (p : Player) (r : Performance) : Account := (s.act p r).account

/-- The only run shows an account, and its player's latest result. -/
def Shows (who : Nat) (part : Part) (me : Nat) (s : Stage) (a : Account)
    (latest : Option RunResult) : Prop :=
  ∃ r p, Cast who part me s.runs s.players r p ∧ s.account p r = a ∧ p.result = latest

/-- The only run stands as its phase says. -/
def Solo (who : Nat) (part : Part) (me : Nat) (o : Outset) (s : Stage) : Prop :=
  ∃ r p, Cast who part me s.runs s.players r p ∧ r.phase.Stands o (s.account p r) p.result

section
variable {who me : Nat} {part : Part} {o : Outset} {s : Stage} {r : Performance} {p : Player}
  {a : Account} {latest : Option RunResult} {i : Nat}

/-! ## While others act -/

theorem Cast.modifyRun (h : Cast who part me s.runs s.players r p) (f : Performance → Performance)
    (hf : (f r).player = r.player) :
    Cast who part me (s.modifyRun me f).runs (s.modifyRun me f).players (f r) p := by
  refine ⟨modifyRun_self h.run f, fun i r' hi hme => ?_, h.player, hf.trans h.mine, h.plays⟩
  rw [modifyRun_of_ne hme] at hi
  exact h.others i r' hi hme

theorem Cast.setPhase (h : Cast who part me s.runs s.players r p) (phase : Phase) :
    Cast who part me (s.setPhase me phase).runs (s.setPhase me phase).players
      { r with phase := phase } p :=
  h.modifyRun _ rfl

/-- The cast stays the same but for the bookkeeping of the run's wait. -/
theorem Cast.passes (h : Cast who part me s.runs s.players r p) {s' : Stage} (hs : Passes s s') :
    ∃ phase, Cast who part me s'.runs s'.players { r with phase := phase } p ∧
      r.phase.Like phase := by
  obtain ⟨phase, hr', hlike⟩ := hs.runs me r h.run
  refine ⟨phase, ⟨hr', fun i r' hi hme => ?_, hs.players ▸ h.player, h.mine, h.plays⟩, hlike⟩
  have hlt : i < s.runs.size := by
    obtain ⟨hlt, -⟩ := Array.getElem?_eq_some_iff.mp hi
    rwa [hs.size] at hlt
  obtain ⟨phase', hsome, hlike'⟩ := hs.runs i _ (Array.getElem?_eq_getElem hlt)
  obtain ⟨e, he⟩ := h.others i _ (Array.getElem?_eq_getElem hlt) hme
  rw [hi] at hsome
  cases hsome
  rw [he] at hlike'
  cases hlike'
  exact ⟨e, rfl⟩

theorem account_passes {s' : Stage} (hs : Passes s s') (phase : Phase) :
    s'.account p { r with phase := phase } = s.account p r := by
  unfold Stage.account act Act.account
  rw [hs.rig]

theorem account_player {p' : Player} (h : p'.machine = p.machine) :
    s.account p' r = s.account p r := by
  unfold Stage.account act Act.account
  rw [h]

theorem Solo.passes (h : Solo who part me o s) {s' : Stage} (hs : Passes s s') :
    Solo who part me o s' := by
  obtain ⟨r, p, hcast, hstands⟩ := h
  obtain ⟨phase, hcast', hlike⟩ := hcast.passes hs
  refine ⟨_, p, hcast', ?_⟩
  rw [account_passes hs]
  exact hlike.stands hstands

theorem Shows.passes (h : Shows who part me s a latest) {s' : Stage} (hs : Passes s s') :
    Shows who part me s' a latest := by
  obtain ⟨r, p, hcast, haccount, hlatest⟩ := h
  obtain ⟨phase, hcast', -⟩ := hcast.passes hs
  exact ⟨_, p, hcast', (account_passes hs phase).trans haccount, hlatest⟩

/-! ## What a run does -/

theorem Shows.setPhase (h : Shows who part me s a latest) (phase : Phase)
    (hphase : phase.Stands o a latest) : Solo who part me o (s.setPhase me phase) := by
  obtain ⟨r, p, hcast, haccount, hlatest⟩ := h
  refine ⟨_, p, hcast.setPhase phase, ?_⟩
  rw [← haccount, ← hlatest] at hphase
  exact hphase

theorem Shows.modifyPlayer (h : Shows who part me s a latest) {f : Player → Player}
    {latest' : Option RunResult}
    (hf : ∀ p, p.result = latest → (f p).machine = p.machine ∧ (f p).part = p.part ∧
      (f p).result = latest') : Shows who part me (s.modifyPlayer who f) a latest' := by
  obtain ⟨r, p, hcast, haccount, hlatest⟩ := h
  obtain ⟨hmachine, hpart, hresult⟩ := hf p hlatest
  exact ⟨r, f p, ⟨hcast.run, hcast.others, modifyPlayer_self hcast.player f, hcast.mine,
    hpart.trans hcast.plays⟩, (account_player hmachine).trans haccount, hresult⟩

theorem takeOver_shows (h : Cast who part me s.runs s.players r p) (r' : Performance) (p' : Player)
    (hr : r'.player = who) (hp : p'.part = part) (b : Act) :
    Shows who part me (s.takeOver me r' p' b) b.account p'.result := by
  obtain ⟨s₁, hrig, hruns, hplayers, hpasses⟩ := s.takeOver_stores me r' p' b
  have hmodified := h.modifyRun (fun _ =>
    { r' with sounding := b.sounding, emitted := b.emitted, errors := b.errors })
    (hr.trans h.mine.symm)
  have hstored : Shows who part me s₁ b.account p'.result := by
    refine ⟨{ r' with sounding := b.sounding, emitted := b.emitted, errors := b.errors },
      { p' with machine := b.machine, heard := b.heard },
      ⟨hruns ▸ hmodified.run, hruns ▸ hmodified.others, ?_, hr, hp⟩, ?_, rfl⟩
    · rw [hplayers, hr]
      exact modifyPlayer_self h.player _
    · unfold Stage.account act Act.account
      rw [hrig]
  exact hstored.passes hpasses

variable (hr : part.router = o.router)

theorem Shows.await (h : Shows who part me s a latest) (ha : ∃ n, o.Underway n a) (p : Player)
    (deadline : Binary64) : Solo who part me o (s.await me p deadline) := by
  unfold Stage.await
  dsimp only
  split
  · have hlater : Shows who part me (s.callAt (s.now + coarse p (deadline - s.now)) (.deadline me))
        a latest := h
    exact hlater.setPhase (.waiting { deadline := deadline }) ha
  · exact h.setPhase (.active p.part.yieldInterval) ha

include hr

theorem failRun_solo (h : Cast who part me s.runs s.players r p) {b : Act} {k : Nat}
    (hb : b.account = o.account k) (f : RunFault) : Solo who part me o (s.failRun me r p b f) := by
  have hshows := takeOver_shows h r p h.mine h.plays (b.leave p.part)
  have hclosed := b.leave_closed (h.plays.symm ▸ hr) hb
  unfold failRun endRun
  rw [h.mine]
  have hstopped : Shows who part me ((s.takeOver me r p (b.leave p.part)).modifyPlayer who fun p =>
      { p with running := false }) (b.leave p.part).account p.result :=
    hshows.modifyPlayer fun p hp => ⟨rfl, rfl, hp⟩
  exact hstopped.setPhase (.ended (.error f)) hclosed

theorem continueRun_solo (h : Cast who part me s.runs s.players r p) {k : Nat}
    (hk : o.Underway k (s.account p r)) (left : Nat) :
    Solo who part me o (s.continueRun me r p left) := by
  have hrouter : p.part.router = o.router := h.plays.symm ▸ hr
  have hstretch := (s.act p r).stretch_stands hrouter hk left
  have hshows := fun b => takeOver_shows h r p h.mine h.plays b
  unfold continueRun
  rcases hb : (s.act p r).stretch p.part left with ⟨b, pause⟩
  rw [hb] at hstretch
  cases pause with
  | yield => exact (hshows b).setPhase (.active p.part.yieldInterval) hstretch
  | wait due => exact (hshows b).await hstretch p (r.start + due)
  | listen n left => exact (hshows b).setPhase (.telling n (.proceed left)) hstretch
  | failed f =>
    obtain ⟨n, hn⟩ := hstretch
    exact failRun_solo hr h hn f
  | «over» =>
    obtain ⟨n, hn⟩ := hstretch
    have hsettled := b.conclude_settled hrouter hn
    rcases hc : b.conclude p.part with ⟨c, result, failure⟩
    rw [hc] at hsettled
    have hfinished : Shows who part me ((s.takeOver me r p c).modifyPlayer r.player fun p =>
        { p with running := false, result := some result }) c.account (some result) := by
      rw [h.mine]
      exact (hshows c).modifyPlayer fun p hp => ⟨rfl, rfl, rfl⟩
    dsimp only
    rw [hc]
    dsimp only
    cases failure with
    | some message => exact hfinished.setPhase (.ended (.error (.listener message))) hsettled.closed
    | none =>
      dsimp only
      split
      · exact hfinished.setPhase (.telling (.stop result) (.finish result)) ⟨rfl, hsettled⟩
      · exact hfinished.setPhase (.ended (.ok result)) hsettled

theorem beginRun_solo (h : Cast who part me s.runs s.players r p)
    (hstart : Phase.fresh.Stands o (s.account p r) p.result) :
    Solo who part me o (s.beginRun me r p) := by
  obtain ⟨hprogram, hsinks⟩ := hstart
  unfold beginRun
  dsimp only
  rcases hb : (s.act { p with running := true, cancel := some r.signal }
    { r with start := s.now }).enter p.part with ⟨b, failure⟩
  have hentered : b.account = o.account 0 := by
    have henter := (s.act { p with running := true, cancel := some r.signal }
      { r with start := s.now }).enter_account p.part (o := o) hprogram hsinks
    rwa [hb] at henter
  have hshows := takeOver_shows h { r with start := s.now }
    { p with running := true, cancel := some r.signal } h.mine h.plays b
  rw [hentered] at hshows
  dsimp only
  cases failure with
  | some message =>
    exact hshows.setPhase (.ended (.error (.listener message))) (Outset.closed_zero rfl)
  | none =>
    dsimp only
    split
    · exact hshows.setPhase (.telling .start .begin) rfl
    · obtain ⟨r', p', hcast, haccount, -⟩ := hshows
      have hr' : (s.takeOver me { r with start := s.now }
          { p with running := true, cancel := some r.signal } b).runs[me]? = some r' := hcast.run
      have hp' : (s.takeOver me { r with start := s.now }
          { p with running := true, cancel := some r.signal } b).players[r.player]? = some p' :=
        (congrArg _ h.mine).trans hcast.player
      rw [hr', hp']
      exact continueRun_solo hr hcast (haccount ▸ o.underway_zero) _

theorem resumeRun_solo (h : Cast who part me s.runs s.players r p) {failure : Option String}
    {next : Errand} (hstands : (Phase.told failure next).Stands o (s.account p r) p.result) :
    Solo who part me o (s.resumeRun me r p failure next) := by
  have hshows : Shows who part me s (s.account p r) p.result := ⟨r, p, h, rfl, rfl⟩
  cases failure with
  | none =>
    cases next with
    | begin =>
      have hbegun : s.account p r = o.account 0 := hstands
      exact continueRun_solo hr h (hbegun ▸ o.underway_zero) _
    | proceed left =>
      obtain ⟨k, hk⟩ := hstands
      exact continueRun_solo hr h hk left
    | finish result =>
      obtain ⟨hlatest, hsettled⟩ := hstands
      have hended := hshows.setPhase (.ended (.ok result)) (o := o) hsettled
      unfold resumeRun
      rw [hlatest]
      exact hended
  | some message =>
    cases next with
    | begin =>
      exact hshows.setPhase (.ended (.error (.listener message))) (Outset.closed_zero hstands)
    | proceed left =>
      obtain ⟨k, hk⟩ := hstands
      exact failRun_solo hr h hk.account (.listener message)
    | finish result =>
      exact hshows.setPhase (.ended (.error (.listener message))) hstands.2.closed

theorem actWait_solo (h : Cast who part me s.runs s.players r p) {w : Wait}
    (hphase : r.phase = .waiting w) (hstands : r.phase.Stands o (s.account p r) p.result) :
    Solo who part me o (s.actWait me r p w) := by
  unfold actWait
  split
  · have hk := hstands
    rw [hphase] at hk
    obtain ⟨k, hk⟩ := hk
    unfold afterWait moveTo
    dsimp only
    split
    · split
      · exact continueRun_solo (s := { s with now := w.deadline }) hr h hk _
      · exact continueRun_solo hr h hk _
    · exact continueRun_solo hr h hk _
  · exact Solo.passes ⟨r, p, h, hstands⟩ (passes_recallLookout (wait?_of_run h.run hphase))

/-- Whatever its phase, the run acts as it should. -/
theorem Solo.actRun (h : Solo who part me o s) (i : Nat) : Solo who part me o (s.actRun i) := by
  have hsolo := h
  obtain ⟨r, p, hcast, hstands⟩ := h
  unfold Stage.actRun
  split
  · exact hsolo
  · rename_i r' hr'
    by_cases hme : i = me
    swap
    · -- The others have ended.
      obtain ⟨e, he⟩ := hcast.others i r' hr' hme
      rw [he]
      split <;> exact hsolo
    rw [hme, hcast.run] at hr'
    cases hr'
    rw [hme, hcast.mine, hcast.player]
    dsimp only
    split
    · rename_i hphase
      exact beginRun_solo hr hcast (hphase ▸ hstands)
    · rename_i left hphase
      rw [hphase] at hstands
      obtain ⟨k, hk⟩ := hstands
      exact continueRun_solo hr hcast hk left
    · rename_i w hphase
      exact actWait_solo hr hcast hphase hstands
    · rename_i n next hphase
      rw [hphase] at hstands
      have htold := (s.act p r).tellDeferred_account p.part n
      have hshows := takeOver_shows hcast r p hcast.mine hcast.plays
        ((s.act p r).tellDeferred p.part n).1
      rw [htold] at hshows
      refine hshows.setPhase (.told ((s.act p r).tellDeferred p.part n).2 next) ?_
      cases next <;> exact hstands
    · rename_i failure next hphase
      exact resumeRun_solo hr hcast (hphase ▸ hstands)
    · exact hsolo

/-! ## What anybody does -/

theorem Solo.actThread (h : Solo who part me o s) (t : Thread) :
    Solo who part me o (s.actThread t) := by
  by_cases ht : ∃ i, t = .run i
  · obtain ⟨i, rfl⟩ := ht
    exact h.actRun hr i
  · exact h.passes (passes_actThread fun i hi => ht ⟨i, hi⟩)

/-- The run lemma. -/
theorem Solo.goUntil (h : Solo who part me o s) (done : Stage → Bool) (fuel : Nat) :
    Solo who part me o (s.goUntil done fuel) :=
  goUntil_induct (fun _ _ h hs => h.passes hs) (fun _ t h => h.actThread hr t) h done fuel

end

/-! ## A run in the foreground -/

section
variable {s : Stage} {p : Player}

/-- Every run on stage has ended. -/
def Idle (s : Stage) : Prop := ∀ (i : Nat) (r : Performance), s.runs[i]? = some r →
  ∃ e, r.phase = .ended e

theorem Idle.foldl_relieve (h : s.Idle) (is : List Nat) : is.foldl relieve s = s := by
  induction is with
  | nil => rfl
  | cons i is ih =>
    have hrelieve : s.relieve i = s := by
      have hnone : s.wait? i = none := by
        unfold wait?
        cases hi : s.runs[i]? with
        | none => rfl
        | some r =>
          obtain ⟨e, he⟩ := h i r hi
          show r.phase.wait? = none
          rw [he]
          rfl
      unfold relieve
      rw [hnone]
    rw [List.foldl_cons, hrelieve, ih]

/-- A stage on which nothing has happened since `s₀` that concerns players or their runs. -/
structure Bare (s₀ s : Stage) : Prop where
  idle : s.Idle
  runs : s.runs = s₀.runs
  players : s.players = s₀.players
  rig : s.rig = s₀.rig

theorem Bare.raiseIf {s₀ : Stage} (h : Bare s₀ s) (signal : Nat) (b : Bool) :
    Bare s₀ (s.raiseIf signal b) := by
  unfold Stage.raiseIf
  split
  · have hidle : Idle { s with
        raised := if s.isRaised signal then s.raised else signal :: s.raised
        watched := (s.watched.partition (s.isCancelledBy signal)).2 } := h.idle
    have hfold := hidle.foldl_relieve (s.watched.partition (s.isCancelledBy signal)).1
    unfold raise
    dsimp only
    rw [hfold]
    exact ⟨h.idle, h.runs, h.players, h.rig⟩
  · exact h

theorem Bare.raiseAfter {s₀ : Stage} (h : Bare s₀ s) (signal : Nat) (time : Option Binary64) :
    Bare s₀ (s.raiseAfter signal time) := by
  cases time <;> exact ⟨h.idle, h.runs, h.players, h.rig⟩

theorem Bare.raiseAtYield {s₀ : Stage} (h : Bare s₀ s) (signal : Nat) (k : Option Nat) :
    Bare s₀ (s.raiseAtYield signal k) := by
  cases k <;> exact ⟨h.idle, h.runs, h.players, h.rig⟩

theorem Bare.addRun {s₀ : Stage} (h : Bare s₀ s) {who : Nat} (hp : s₀.players[who]? = some p)
    (signal : Nat) : (s.addRun who signal).2 = s₀.runs.size ∧
      Solo who p.part s₀.runs.size ⟨p.machine.program, p.part.router, s₀.rig.sinks⟩
        (s.addRun who signal).1 := by
  refine ⟨congrArg Array.size h.runs, { player := who, signal := signal }, p,
    ⟨?_, fun i r hi hlast => ?_, ?_, rfl, rfl⟩, rfl, congrArg Rig.sinks h.rig⟩
  · show (s.runs.push _)[s₀.runs.size]? = _
    rw [← h.runs, Array.getElem?_push_size]
  · have hpushed : (s.runs.push { player := who, signal := signal })[i]? = some r := hi
    rw [Array.getElem?_push, if_neg (by rw [h.runs]; exact hlast)] at hpushed
    exact h.idle i r hpushed
  · show s.players[who]? = some p
    rw [h.players, hp]

/-- However long a run in the foreground has gone on, it stands as its phase says. -/
theorem runPlayer_solo {who : Nat} (hidle : s.Idle) (hp : s.players[who]? = some p)
    (c : Cancellation) (fuel : Nat) :
    Solo who p.part s.runs.size ⟨p.machine.program, p.part.router, s.rig.sinks⟩
        (s.runPlayer who c fuel).1 ∧
      (s.runPlayer who c fuel).2 = (s.runPlayer who c fuel).1.ending? s.runs.size := by
  have hbare : Bare s s.newSignal.1 := ⟨hidle, rfl, rfl, rfl⟩
  have hready := ((hbare.raiseIf s.newSignal.2 c.beforehand).raiseAfter s.newSignal.2
    c.after).raiseAtYield s.newSignal.2 c.atYield
  obtain ⟨hindex, hsolo⟩ := hready.addRun hp s.newSignal.2
  unfold runPlayer
  dsimp only
  rw [hindex]
  exact ⟨(hsolo.actRun rfl _).goUntil rfl (hasEnded _) fuel, rfl⟩

/-- **A run ends as it should, however it ends.** Its player is the only one that runs; when and how
often it is asked to stop makes no difference. -/
theorem runPlayer_ends {who : Nat} (hidle : s.Idle) (hp : s.players[who]? = some p)
    {c : Cancellation} {fuel : Nat} {s' : Stage} {e : Ending}
    (h : s.runPlayer who c fuel = (s', some e)) :
    ∃ p' a, s'.players[who]? = some p' ∧ a.machine = p'.machine ∧ a.sinks = s'.rig.sinks ∧
      Ends ⟨p.machine.program, p.part.router, s.rig.sinks⟩ a e := by
  obtain ⟨⟨r', p', hcast, hstands⟩, hending⟩ := runPlayer_solo hidle hp c fuel
  rw [h] at hcast hstands hending
  have hphase : r'.phase = .ended e := by
    obtain ⟨r'', hr'', he⟩ := Option.bind_eq_some_iff.mp hending.symm
    rw [hcast.run] at hr''
    cases hr''
    unfold Phase.ending? at he
    split at he
    · rename_i e' he'
      rw [he', Option.some.inj he]
    · cases he
  rw [hphase] at hstands
  exact ⟨p', s'.account p' r', hcast.player, rfl, rfl, hstands⟩

/-- A run that is dismissed among its instructions, at whatever scheduling point, is closed too. -/
theorem dismissRun_closed {who : Nat} (hidle : s.Idle) (hp : s.players[who]? = some p)
    {c : Cancellation} {fuel : Nat} {s' : Stage} {e : Option Ending}
    (h : s.runPlayer who c fuel = (s', e)) {r : Performance} (hr : s'.runs[s.runs.size]? = some r)
    (hplaying : r.phase.isPlaying = true) :
    ∃ p' a, (s'.dismissRun s.runs.size).players[who]? = some p' ∧ a.machine = p'.machine ∧
      a.sinks = (s'.dismissRun s.runs.size).rig.sinks ∧
      Outset.Closed ⟨p.machine.program, p.part.router, s.rig.sinks⟩ a := by
  obtain ⟨⟨r', p', hcast, hstands⟩, -⟩ := runPlayer_solo hidle hp c fuel
  rw [h] at hcast hstands
  have hsame : s'.runs[s.runs.size]? = some r' := hcast.run
  rw [hr] at hsame
  cases hsame
  obtain ⟨n, hn⟩ := hstands.underway hplaying
  have hrouter : p'.part.router = p.part.router := congrArg Part.router hcast.plays
  have hclosed := (s'.act p' r).leave_closed
    (o := ⟨p.machine.program, p.part.router, s.rig.sinks⟩) hrouter hn.account
  have hshows := takeOver_shows hcast r p' hcast.mine hcast.plays ((s'.act p' r).leave p'.part)
  obtain ⟨r'', p'', hcast', haccount, -⟩ := hshows.modifyPlayer
    (f := fun p => { p with running := false }) fun _ hlatest => ⟨rfl, rfl, hlatest⟩
  rw [← haccount] at hclosed
  unfold dismissRun
  rw [hr]
  dsimp only
  rw [hcast.mine, hcast.player]
  dsimp only
  rw [if_pos hplaying]
  exact ⟨p'', _, hcast'.player, rfl, rfl, hclosed⟩

end

end Stage

end Ostinato.Live
