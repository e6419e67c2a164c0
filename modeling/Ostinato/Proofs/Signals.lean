import Ostinato.Proofs.Beside
import Ostinato.Proofs.Stopping

/-!
# Signals on stage

A run that was asked to stop, by the signal that it looks for (`Asked`), executes nothing when it
acts. Whatever its phase, it comes nearer to its end or stops where it is (`Asked.actRun`).
-/

namespace Ostinato.Live

namespace Stage

section
variable {s s' : Stage} {i : Nat} {r : Performance} {p : Player} {part : Part} {phase : Phase}
  {a : Account} {latest : Option RunResult}

/-- The `i`-th run is in a phase, with the player and the signal of `r`. It shows an account, and
`latest` is the latest result of its player. -/
def Bears (s : Stage) (i : Nat) (r : Performance) (part : Part) (phase : Phase) (a : Account)
    (latest : Option RunResult) : Prop :=
  ∃ r' p', s.Hosts i r' p' ∧ r'.player = r.player ∧ r'.signal = r.signal ∧ r'.phase = phase ∧
    p'.part = part ∧ s.account p' r' = a ∧ p'.result = latest

theorem Bears.of_eq (h : s.Bears i r part phase a latest) (hruns : s'.runs = s.runs)
    (hplayers : s'.players = s.players) (hrig : s'.rig = s.rig) :
    s'.Bears i r part phase a latest := by
  obtain ⟨r', p', hhosts, hplayer, hsignal, hphase, hpart, haccount, hlatest⟩ := h
  refine ⟨r', p', ⟨hruns ▸ hhosts.run, hplayers ▸ hhosts.player⟩, hplayer, hsignal, hphase, hpart,
    ?_, hlatest⟩
  rw [← haccount, Stage.account, Stage.account, act, act, Act.account, Act.account, hrig]

theorem Bears.setPhase (h : s.Bears i r part phase a latest) (phase' : Phase) :
    (s.setPhase i phase').Bears i r part phase' a latest := by
  obtain ⟨r', p', hhosts, hplayer, hsignal, -, hpart, haccount, hlatest⟩ := h
  exact ⟨{ r' with phase := phase' }, p', ⟨modifyRun_self hhosts.run _, hhosts.player⟩, hplayer,
    hsignal, rfl, hpart, haccount, hlatest⟩

theorem Bears.rephase (h : s.Bears i r part phase a latest) (phase' : Phase) (rounds : Nat)
    (t : Thread) : ((s.setPhase i phase').enqueue rounds t).Bears i r part phase' a latest :=
  (h.setPhase phase').of_eq rfl rfl rfl

theorem Bears.relieve {w : Wait} (h : s.Bears i r part (.waiting w) a latest) :
    (s.relieve i).Bears i r part (.waiting { w with lookout := .leaving }) a latest := by
  have hrephased := h.rephase (.waiting { w with lookout := .leaving }) 0 (.lookout i)
  obtain ⟨r', p', hhosts, -, -, hphase, -⟩ := h
  unfold Stage.relieve
  rw [wait?_of_run hhosts.run hphase]
  exact hrephased

theorem Bears.modifyPlayer (h : s.Bears i r part phase a latest) {f : Player → Player}
    {latest' : Option RunResult} (hf : ∀ p, p.result = latest →
      (f p).machine = p.machine ∧ (f p).part = p.part ∧ (f p).result = latest') :
    (s.modifyPlayer r.player f).Bears i r part phase a latest' := by
  obtain ⟨r', p', hhosts, hplayer, hsignal, hphase, hpart, haccount, hlatest⟩ := h
  obtain ⟨hmachine, hkept, hresult⟩ := hf p' hlatest
  refine ⟨r', f p', ⟨hhosts.run, ?_⟩, hplayer, hsignal, hphase, hkept.trans hpart,
    (account_player hmachine).trans haccount, hresult⟩
  rw [← hplayer]
  exact modifyPlayer_self hhosts.player f

theorem Hosts.takeOver (h : s.Hosts i r p) (r' : Performance) (hplayer : r'.player = r.player)
    (hsignal : r'.signal = r.signal) (p' : Player) (a : Act) :
    ∃ phase, (s.takeOver i r' p' a).Bears i r p'.part phase a.account p'.result := by
  obtain ⟨s₁, hrig, hstored, hpasses⟩ := h.takeOver_stored r' hplayer p' a
  obtain ⟨phase, hhosts, -⟩ := hstored.passes hpasses
  refine ⟨phase, _, _, hhosts, hplayer, hsignal, rfl, rfl, ?_, rfl⟩
  rw [Stage.account, act, Act.account, hpasses.rig, hrig]
  rfl
end

end Stage

/-! ## Phases of a run that was asked to stop -/

def Phase.IsOpen : Phase → Prop
  | .telling _ (.finish _) | .told _ (.finish _) | .told (some _) _ | .ended _ => False
  | _ => True

def Phase.Closes (result : RunResult) : Phase → Prop
  | .telling _ (.finish r) | .told none (.finish r) => r = result
  | .ended e => e = .ok result
  | _ => False

theorem Phase.Like.isOpen {a b : Phase} (h : Like a b) (ha : a.IsOpen) : b.IsOpen := by
  cases h with
  | refl => exact ha
  | wait => trivial

theorem Phase.Like.closes {a b : Phase} (h : Like a b) {result : RunResult}
    (ha : a.Closes result) : b.Closes result := by
  cases h with
  | refl => exact ha
  | wait => exact ha

/-- How often a run still acts at most, if it was asked to stop. -/
def Errand.turnsToEnd : Errand → Nat
  | .finish _ => 1
  | .proceed 0 => 4
  | _ => 3

@[inherit_doc Errand.turnsToEnd]
def Phase.turnsToEnd : Phase → Nat
  | .fresh => 5
  | .active 0 => 4
  | .active _ => 3
  | .waiting w => if w.recalled then 3 else 4
  | .telling _ next => next.turnsToEnd + 1
  | .told _ next => next.turnsToEnd
  | .ended _ => 0

theorem Phase.turnsToEnd_le (phase : Phase) : phase.turnsToEnd ≤ 5 := by
  have herrand (next : Errand) : next.turnsToEnd ≤ 4 := by
    unfold Errand.turnsToEnd
    split <;> omega
  cases phase with
  | fresh => exact Nat.le_refl 5
  | active left => cases left <;> simp [turnsToEnd]
  | waiting w =>
    show (if w.recalled then 3 else 4) ≤ 5
    split <;> omega
  | telling n next => exact Nat.succ_le_succ (herrand next)
  | told failure next => exact Nat.le_succ_of_le (herrand next)
  | ended e => exact Nat.zero_le 5

theorem Phase.IsOpen.turnsToEnd_ge {phase : Phase} (h : phase.IsOpen) : 3 ≤ phase.turnsToEnd := by
  have hproceed (left : Nat) : 3 ≤ (Errand.proceed left).turnsToEnd := by
    cases left <;> simp [Errand.turnsToEnd]
  cases phase with
  | fresh => decide
  | active left => cases left <;> simp [turnsToEnd]
  | waiting w =>
    show 3 ≤ if w.recalled then 3 else 4
    split <;> omega
  | telling n next =>
    cases next with
    | begin => exact Nat.le_succ 3
    | proceed left => exact Nat.le_succ_of_le (hproceed left)
    | finish result => exact h.elim
  | told failure next =>
    cases next with
    | begin => exact Nat.le_refl 3
    | proceed left => exact hproceed left
    | finish result => cases failure <;> exact h.elim
  | ended e => exact h.elim

theorem Phase.Closes.turnsToEnd_le {phase : Phase} {result : RunResult} (h : phase.Closes result) :
    phase.turnsToEnd ≤ 2 := by
  unfold Closes at h
  split at h
  · exact Nat.le_refl 2
  · exact Nat.le_succ 1
  · exact Nat.zero_le 2
  · exact h.elim

namespace Stage

/-- What a run goes on with when it next acts. A fresh one begins from the top. -/
def outset (s : Stage) (p : Player) (r : Performance) : Account :=
  match r.phase with
  | .fresh =>
    { s.account p r with machine := p.machine.reset, sounding := {}, emitted := 0, errors := [] }
  | _ => s.account p r

/-- What a run may come to that is asked to stop at `a`. -/
inductive Nears (s : Stage) (i : Nat) (r : Performance) (p : Player) (a : Account) : Prop where
  /-- It has come nearer to its end, and done nothing else. -/
  | going (phase : Phase) (h : s.Bears i r p.part phase a p.result) (hopen : phase.IsOpen)
    (hless : phase.turnsToEnd < r.phase.turnsToEnd)
  /-- It has stopped where it was. -/
  | stopped (phase : Phase) (b : Account) (result : RunResult)
    (h : s.Bears i r p.part phase b (some result)) (hcloses : phase.Closes result)
    (hstops : Stops p.part.router a b result)

section
variable {s : Stage} {i : Nat} {r : Performance} {p : Player} (h : s.Hosts i r p)
  (hpart : ∀ l ∈ p.part.listeners, l.IsCourteous) (hraised : s.isRaised r.signal = true)

include h

/-- A run that has no instruction left gives way first. -/
theorem continueRun_yields : (s.continueRun i r p 0).Bears i r p.part
    (.active p.part.yieldInterval) (s.account p r) p.result := by
  obtain ⟨phase, hbears⟩ := h.takeOver r rfl rfl p (s.act p r)
  exact hbears.rephase (.active p.part.yieldInterval) 0 (.run i)

include hpart hraised

/-- A run that looks for its signal and finds it raised stops where it is. -/
theorem continueRun_stops (hm : p.machine.isFinished = false) (left : Nat) :
    ∃ phase b result, (s.continueRun i r p (left + 1)).Bears i r p.part phase b (some result) ∧
      phase.Closes result ∧ Stops p.part.router (s.account p r) b result := by
  have hturn : (s.act p r).stretch p.part (left + 1) = ((s.act p r).cancel, .over) := by
    rw [Act.stretch, Act.turn_cancelled hraised]
  have hfailure : ((s.act p r).cancel.conclude p.part).2.2 = none := Act.tell_none hpart _ _
  have hstops := (s.act p r).conclude_stops hm p.part
  unfold continueRun
  rw [hturn]
  dsimp only
  generalize (s.act p r).cancel.conclude p.part = x at hfailure hstops ⊢
  obtain ⟨c, result, failure⟩ := x
  cases hfailure
  obtain ⟨phase, hbears⟩ := h.takeOver r rfl rfl p c
  have hended := hbears.modifyPlayer (f := fun p =>
    { p with running := false, result := some result }) fun p _ => ⟨rfl, rfl, rfl⟩
  dsimp only
  split
  · exact ⟨_, _, result, hended.rephase (.telling (.stop result) (.finish result)) _ _, rfl, hstops⟩
  · exact ⟨_, _, result, hended.setPhase (.ended (.ok result)), rfl, hstops⟩

end

/-- A run that has neither ended nor failed, the signal of which is raised. Its listeners do not fail,
and its machine has not finished. -/
structure Asked (s : Stage) (i : Nat) (r : Performance) (p : Player) : Prop where
  hosts : s.Hosts i r p
  courteous : ∀ l ∈ p.part.listeners, l.IsCourteous
  interval : 1 ≤ p.part.yieldInterval
  isOpen : r.phase.IsOpen
  raised : s.isRaised r.signal = true
  running : (s.outset p r).machine.isFinished = false

theorem outset_eq {s : Stage} {r : Performance} {p : Player} (h : r.phase ≠ .fresh) :
    s.outset p r = s.account p r := by
  unfold outset
  split
  · rename_i hfresh
    exact absurd hfresh h
  · rfl

section
variable {s : Stage} {i : Nat} {r : Performance} {p : Player} (h : s.Asked i r p)
include h

theorem Asked.interval_eq : ∃ n, p.part.yieldInterval = n + 1 :=
  Nat.exists_eq_succ_of_ne_zero (Nat.one_le_iff_ne_zero.mp h.interval)

theorem Asked.continueRun (hfresh : r.phase ≠ .fresh) {left : Nat}
    (hturns : (Phase.active left).turnsToEnd ≤ r.phase.turnsToEnd) :
    (s.continueRun i r p left).Nears i r p (s.outset p r) := by
  have hm := h.running
  rw [outset_eq hfresh] at hm ⊢
  cases left with
  | zero =>
    obtain ⟨n, hn⟩ := h.interval_eq
    refine .going _ (continueRun_yields h.hosts) trivial (Nat.lt_of_lt_of_le ?_ hturns)
    rw [hn]
    exact Nat.lt_succ_self 3
  | succ left =>
    obtain ⟨phase, b, result, hbears, hcloses, hstops⟩ :=
      continueRun_stops h.hosts h.courteous h.raised hm left
    exact .stopped phase b result hbears hcloses hstops

theorem Asked.continueRun_interval (hfresh : r.phase ≠ .fresh) :
    (s.continueRun i r p p.part.yieldInterval).Nears i r p (s.outset p r) := by
  apply h.continueRun hfresh
  obtain ⟨n, hn⟩ := h.interval_eq
  rw [hn]
  exact h.isOpen.turnsToEnd_ge

theorem Asked.bears (hfresh : r.phase ≠ .fresh) :
    s.Bears i r p.part r.phase (s.outset p r) p.result :=
  ⟨r, p, h.hosts, rfl, rfl, rfl, rfl, (outset_eq hfresh).symm, rfl⟩

theorem Asked.actWait {w : Wait} (hphase : r.phase = .waiting w) :
    (s.actWait i r p w).Nears i r p (s.outset p r) := by
  have hfresh : r.phase ≠ .fresh := by
    rw [hphase]
    exact Phase.noConfusion
  unfold Stage.actWait
  split
  · unfold afterWait
    dsimp only
    rw [h.raised, Bool.not_true, Bool.and_false, if_neg Bool.false_ne_true]
    exact h.continueRun_interval hfresh
  · rename_i hwait
    -- The lookout is called back, which leaves one more turn.
    have hrecalled : w.recalled = false := by
      rw [← Bool.not_eq_true]
      exact fun hr => hwait (by rw [hr, Bool.true_or])
    have hless : ∀ w' : Wait, w'.recalled = true →
        (Phase.waiting w').turnsToEnd < r.phase.turnsToEnd := by
      intro w' hw'
      rw [hphase, Phase.turnsToEnd, Phase.turnsToEnd, if_pos hw',
        if_neg (by rw [hrecalled]; exact Bool.false_ne_true)]
      exact Nat.lt_succ_self 3
    have hbears := (h.bears hfresh).setPhase (.waiting { w with recalled := true })
    unfold recallLookout
    dsimp only
    split
    · have hwatched : Bears { s.setPhase i (.waiting { w with recalled := true }) with
          watched := (s.setPhase i (.waiting { w with recalled := true })).watched.erase i } i r
          p.part (.waiting { w with recalled := true }) (s.outset p r) p.result :=
        hbears.of_eq rfl rfl rfl
      exact .going _ hwatched.relieve trivial (hless _ rfl)
    · exact .going _ hbears trivial (hless _ rfl)

theorem Asked.telling {n : Notice} {next : Errand} (hphase : r.phase = .telling n next) :
    (((s.takeOver i r p ((s.act p r).tellDeferred p.part n).1).setPhase i
      (.told ((s.act p r).tellDeferred p.part n).2 next)).enqueue roundsOfListeners
        (.run i)).Nears i r p (s.outset p r) := by
  have hfresh : r.phase ≠ .fresh := by
    rw [hphase]
    exact Phase.noConfusion
  have hopen := h.isOpen
  rw [hphase] at hopen
  obtain ⟨phase, hbears⟩ := h.hosts.takeOver r rfl rfl p ((s.act p r).tellDeferred p.part n).1
  rw [Act.tellDeferred_account] at hbears
  rw [Act.tellDeferred_none h.courteous, outset_eq hfresh]
  refine .going _ (hbears.rephase (.told none next) _ _) ?_ ?_
  · cases next with
    | finish result => exact hopen
    | _ => trivial
  · rw [hphase]
    exact Nat.lt_succ_self _

theorem Asked.resumeRun {failure : Option String} {next : Errand}
    (hphase : r.phase = .told failure next) :
    (s.resumeRun i r p failure next).Nears i r p (s.outset p r) := by
  have hfresh : r.phase ≠ .fresh := by
    rw [hphase]
    exact Phase.noConfusion
  have hopen := h.isOpen
  rw [hphase] at hopen
  cases failure with
  | some message => cases next <;> exact hopen.elim
  | none =>
    cases next with
    | begin => exact h.continueRun_interval hfresh
    | proceed left =>
      refine h.continueRun hfresh ?_
      rw [hphase]
      cases left <;> exact Nat.le_refl _
    | finish result => exact hopen.elim

theorem Asked.beginRun (hphase : r.phase = .fresh) :
    (s.beginRun i r p).Nears i r p (s.outset p r) := by
  have hentered : ((s.act { p with running := true, cancel := some r.signal }
      { r with start := s.now }).enter p.part).1.account = s.outset p r := by
    rw [Act.enter_account (o := ⟨p.machine.program, p.part.router, s.rig.sinks⟩) _ _ rfl rfl, outset,
      hphase]
    rfl
  have hfailure : ((s.act { p with running := true, cancel := some r.signal }
      { r with start := s.now }).enter p.part).2 = none := Act.tell_none h.courteous _ _
  unfold Stage.beginRun
  dsimp only
  generalize (s.act { p with running := true, cancel := some r.signal }
      { r with start := s.now }).enter p.part = x at hentered hfailure ⊢
  obtain ⟨b, failure⟩ := x
  cases hfailure
  obtain ⟨phase, hbears⟩ := h.hosts.takeOver { r with start := s.now } rfl rfl
    { p with running := true, cancel := some r.signal } b
  rw [show b.account = s.outset p r from hentered] at hbears
  dsimp only
  split
  · refine .going _ (hbears.rephase (.telling .start .begin) _ _) trivial ?_
    rw [hphase]
    exact Nat.lt_succ_self 4
  · obtain ⟨r', p', hhosts, hplayer, hsignal, -, hpart, haccount, -⟩ := hbears
    obtain ⟨n, hn⟩ := h.interval_eq
    have hraised : (s.takeOver i { r with start := s.now }
        { p with running := true, cancel := some r.signal } b).isRaised r'.signal = true := by
      rw [hsignal, isRaised_iff]
      exact (beside_takeOver _ _ _ _ _).raised (isRaised_iff.mp h.raised)
    have hm : p'.machine.isFinished = false := by
      have hmachine : p'.machine = (s.outset p r).machine := congrArg Account.machine haccount
      rw [hmachine]
      exact h.running
    rw [hhosts.run, show (s.takeOver i { r with start := s.now }
      { p with running := true, cancel := some r.signal } b).players[r.player]? = some p' from
        hplayer ▸ hhosts.player]
    dsimp only
    rw [hpart, hn]
    obtain ⟨phase', c, result, hc, hcloses, hstops⟩ :=
      continueRun_stops hhosts (hpart ▸ h.courteous) hraised hm n
    rw [hpart, haccount] at hstops
    rw [Bears, hplayer, hsignal, hpart] at hc
    exact .stopped phase' c result hc hcloses hstops

/-- **Whatever its phase, a run that was asked to stop does nothing but come to its end.** -/
theorem Asked.actRun : (s.actRun i).Nears i r p (s.outset p r) := by
  unfold Stage.actRun
  rw [h.hosts.run]
  dsimp only
  rw [h.hosts.player]
  dsimp only
  split
  · rename_i hphase
    exact h.beginRun hphase
  · rename_i left hphase
    refine h.continueRun (by rw [hphase]; exact Phase.noConfusion) (Nat.le_of_eq ?_)
    rw [hphase]
  · rename_i w hphase
    exact h.actWait hphase
  · rename_i n next hphase
    exact h.telling hphase
  · rename_i failure next hphase
    exact h.resumeRun hphase
  · rename_i e hphase
    have hopen := h.isOpen
    rw [hphase] at hopen
    exact hopen.elim

end

end Stage

end Ostinato.Live
