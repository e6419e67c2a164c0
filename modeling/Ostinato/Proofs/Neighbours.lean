import Ostinato.Proofs.Staging
import Ostinato.Proofs.Tracks

/-!
# Tracks on one stage

Tracks share the stage, its sinks and the signal that cancels them. When one acts, only that one
changes, and the sinks by what it dispatches (`actRun_goes`); all others stand as they did (`Apart`).
-/

namespace Ostinato.Live

open Machine (load)

/-- How a track stands in each of its phases, `sent` being what it has dispatched. -/
def Phase.Shares (o : Outset) (a : Account) (sent : List Event) : Phase → Prop
  | .fresh => a.machine.program = o.program ∧ sent = []
  | .active _ | .waiting _ => ∃ n, o.Among n a ∧ sent = (load o.program).emitted n
  | .telling .. | .told .. => False
  | .ended e => ∃ n released, sent = (load o.program).emitted n ++ released ∧ o.Matches n released e

theorem Phase.Like.shares {a b : Phase} (h : Like a b) {o : Outset} {acc : Account}
    {sent : List Event} (ha : a.Shares o acc sent) : b.Shares o acc sent := by
  cases h with
  | refl => exact ha
  | wait => exact ha

/-- Which sinks an account has makes no difference to how a track stands. -/
theorem Phase.Shares.withSinks {phase : Phase} {o : Outset} {a b : Account} {sent : List Event}
    (h : phase.Shares o a sent) (hb : b = a.withSinks b.sinks) : phase.Shares o b sent := by
  rw [hb]
  cases phase <;> exact h

/-- A track has dispatched what its program emits, and when it has ended, what it released too. -/
theorem Phase.Shares.performed {phase : Phase} {o : Outset} {a : Account} {sent : List Event}
    (h : phase.Shares o a sent) :
    ∃ n released, sent = (load o.program).emitted n ++ released ∧
      (phase.ending? = none → released = []) ∧
      ∀ e, phase.ending? = some e → o.Matches n released e := by
  cases phase with
  | fresh =>
    obtain ⟨-, rfl⟩ := h
    exact ⟨0, [], rfl, fun _ => rfl, fun e he => by cases he⟩
  | active left =>
    obtain ⟨n, -, rfl⟩ := h
    exact ⟨n, [], (List.append_nil _).symm, fun _ => rfl, fun e he => by cases he⟩
  | waiting w =>
    obtain ⟨n, -, rfl⟩ := h
    exact ⟨n, [], (List.append_nil _).symm, fun _ => rfl, fun e he => by cases he⟩
  | telling notice next => exact h.elim
  | told failure next => exact h.elim
  | ended e =>
    obtain ⟨n, released, rfl, hmatches⟩ := h
    refine ⟨n, released, rfl, fun hnone => (by cases hnone), fun e' he => ?_⟩
    cases he
    exact hmatches

namespace Stage

/-- The `i`-th run is the track of the `i`-th player, who plays `o` and has no listeners. -/
structure Seated (s : Stage) (i : Nat) (o : Outset) (r : Performance) (p : Player) : Prop where
  run : s.runs[i]? = some r
  player : s.players[i]? = some p
  own : r.player = i
  router : p.part.router = o.router
  deaf : p.part.listeners = []

/-- The `i`-th track stands as its phase says, having dispatched `sent`. -/
def Track (s : Stage) (i : Nat) (o : Outset) (sent : List Event) : Prop :=
  ∃ r p, s.Seated i o r p ∧ r.phase.Shares o (s.account p r) sent

def Holds (s : Stage) (i : Nat) (o : Outset) (a : Account) : Prop :=
  ∃ r p, s.Seated i o r p ∧ s.account p r = a

/-- From `s` to `s'` all tracks but the `i`-th stand as they did. -/
structure Apart (i : Nat) (s s' : Stage) : Prop where
  size : s'.runs.size = s.runs.size
  others : ∀ j o sent, j ≠ i → s.Track j o sent → s'.Track j o sent

section
variable {s s' s'' : Stage} {i : Nat} {o : Outset} {r : Performance} {p : Player} {a : Account}
  {sent : List Event}

/-! ## Frames -/

theorem Apart.refl (i : Nat) (s : Stage) : Apart i s s := ⟨rfl, fun _ _ _ _ h => h⟩

theorem Apart.trans (h : Apart i s s') (h' : Apart i s' s'') : Apart i s s'' :=
  ⟨h'.size.trans h.size, fun j o sent hj ht => h'.others j o sent hj (h.others j o sent hj ht)⟩

theorem Seated.passes (h : s.Seated i o r p) (hs : Passes s s') :
    ∃ phase, s'.Seated i o { r with phase := phase } p ∧ r.phase.Like phase := by
  obtain ⟨phase, hr, hlike⟩ := hs.runs i r h.run
  exact ⟨phase, ⟨hr, hs.players ▸ h.player, h.own, h.router, h.deaf⟩, hlike⟩

theorem Track.passes (h : s.Track i o sent) (hs : Passes s s') : s'.Track i o sent := by
  obtain ⟨r, p, hseat, hshares⟩ := h
  obtain ⟨phase, hseat', hlike⟩ := hseat.passes hs
  exact ⟨_, p, hseat', (hlike.shares hshares).withSinks rfl⟩

theorem Holds.passes (h : s.Holds i o a) (hs : Passes s s') : s'.Holds i o a := by
  obtain ⟨r, p, hseat, haccount⟩ := h
  obtain ⟨phase, hseat', -⟩ := hseat.passes hs
  exact ⟨_, p, hseat', (account_passes hs phase).trans haccount⟩

theorem Passes.apart (hs : Passes s s') (i : Nat) : Apart i s s' :=
  ⟨hs.size, fun _ _ _ _ ht => ht.passes hs⟩

theorem apart_of_others (hsize : s'.runs.size = s.runs.size)
    (hruns : ∀ j, j ≠ i → s'.runs[j]? = s.runs[j]?)
    (hplayers : ∀ j, j ≠ i → s'.players[j]? = s.players[j]?) : Apart i s s' := by
  refine ⟨hsize, fun j o sent hj ht => ?_⟩
  obtain ⟨r, p, hseat, hshares⟩ := ht
  exact ⟨r, p, ⟨(hruns j hj).trans hseat.run, (hplayers j hj).trans hseat.player, hseat.own,
    hseat.router, hseat.deaf⟩, hshares.withSinks rfl⟩

theorem apart_modifyRun (s : Stage) (i : Nat) (f : Performance → Performance) :
    Apart i s (s.modifyRun i f) :=
  apart_of_others Array.size_modify (fun _ hj => modifyRun_of_ne hj f) fun _ _ => rfl

theorem apart_modifyPlayer (s : Stage) (i : Nat) (f : Player → Player) :
    Apart i s (s.modifyPlayer i f) :=
  apart_of_others rfl (fun _ _ => rfl) fun _ hj => modifyPlayer_of_ne hj f

theorem Holds.setPhase (h : s.Holds i o a) (phase : Phase) (hphase : phase.Shares o a sent) :
    (s.setPhase i phase).Track i o sent := by
  obtain ⟨r, p, hseat, haccount⟩ := h
  rw [← haccount] at hphase
  exact ⟨{ r with phase := phase }, p,
    ⟨modifyRun_self hseat.run _, hseat.player, hseat.own, hseat.router, hseat.deaf⟩, hphase⟩

theorem Holds.modifyPlayer (h : s.Holds i o a) {f : Player → Player}
    (hf : ∀ p, (f p).machine = p.machine ∧ (f p).part = p.part) :
    (s.modifyPlayer i f).Holds i o a := by
  obtain ⟨r, p, hseat, haccount⟩ := h
  obtain ⟨hmachine, hpart⟩ := hf p
  exact ⟨r, f p, ⟨hseat.run, modifyPlayer_self hseat.player f, hseat.own, hpart ▸ hseat.router,
    hpart ▸ hseat.deaf⟩, (account_player hmachine).trans haccount⟩

theorem takeOver_holds (h : s.Seated i o r p) (r' : Performance) (p' : Player)
    (hr : r'.player = i) (hp : p'.part = p.part) (b : Act) :
    (s.takeOver i r' p' b).Holds i o b.account ∧ Apart i s (s.takeOver i r' p' b) ∧
      (s.takeOver i r' p' b).rig = b.rig := by
  obtain ⟨s₁, hrig, hruns, hplayers, hpasses⟩ := s.takeOver_stores i r' p' b
  rw [hr] at hplayers
  have hholds : s₁.Holds i o b.account := by
    refine ⟨{ r' with sounding := b.sounding, emitted := b.emitted, errors := b.errors },
      { p' with machine := b.machine, heard := b.heard },
      ⟨?_, ?_, hr, hp ▸ h.router, hp ▸ h.deaf⟩, ?_⟩
    · rw [hruns]
      exact modifyRun_self h.run _
    · rw [hplayers]
      exact modifyPlayer_self h.player _
    · unfold Stage.account act Act.account
      rw [hrig]
  have hapart : Apart i s s₁ := by
    refine apart_of_others ?_ (fun j hj => ?_) fun j hj => ?_
    · rw [hruns]
      exact Array.size_modify
    · rw [hruns, modifyRun_of_ne hj]
    · rw [hplayers, modifyPlayer_of_ne hj]
  exact ⟨hholds.passes hpasses, hapart.trans (hpasses.apart i), hpasses.rig.trans hrig⟩

/-! ## What a track does -/

/-- From `s` to `s'` the `i`-th track has dispatched the events `es` after those of `sent`, and
nobody else has done anything. -/
structure Goes (s s' : Stage) (i : Nat) (o : Outset) (sent es : List Event) : Prop where
  track : s'.Track i o (sent ++ es)
  apart : Apart i s s'
  sinks : s'.rig.sinks = (o.router.books s.rig.sinks es).sinks
  inRange : ∀ e ∈ es, e.InRange

theorem Goes.nothing (htrack : s'.Track i o sent) (hapart : Apart i s s')
    (hrig : s'.rig.sinks = s.rig.sinks) : Goes s s' i o sent [] :=
  ⟨by rwa [List.append_nil], hapart, hrig, fun e he => by cases he⟩

theorem Goes.passes {es : List Event} (h : Goes s s' i o sent es) (hs : Passes s' s'') :
    Goes s s'' i o sent es :=
  ⟨h.track.passes hs, h.apart.trans (hs.apart i), (congrArg Rig.sinks hs.rig).trans h.sinks,
    h.inRange⟩

theorem Goes.since {es : List Event} (h : Goes s' s'' i o sent es) (hapart : Apart i s s')
    (hsinks : s'.rig.sinks = s.rig.sinks) : Goes s s'' i o sent es :=
  ⟨h.track, hapart.trans h.apart, hsinks ▸ h.sinks, h.inRange⟩

theorem goes_of_stretch (hholds : s'.Holds i o a) (hapart : Apart i s s') {k n : Nat}
    {es : List Event} (hes : (load o.program).emitted n = (load o.program).emitted k ++ es)
    (hsinks : s'.rig.sinks = (o.router.books s.rig.sinks es).sinks) (phase : Phase)
    (hphase : phase.Shares o a ((load o.program).emitted n)) :
    Goes s (s'.setPhase i phase) i o ((load o.program).emitted k) es := by
  refine ⟨hes ▸ hholds.setPhase phase hphase, hapart.trans (s'.apart_modifyRun i _), hsinks, ?_⟩
  have hrange := (load o.program).emitted_inRange n
  rw [hes] at hrange
  exact (List.forall_mem_append.mp hrange).2

theorem goes_of_end (hholds : s'.Holds i o a) (hapart : Apart i s s') {k n : Nat} {m : Machine}
    {sinks : Sinks} (hsends : o.Sends k n s.rig.sinks sinks)
    (hsinks : s'.rig.sinks =
      (o.router.books sinks (lastWords m (o.books n).delivered)).sinks) {e : Ending}
    (hmatches : o.Matches n (lastWords m (o.books n).delivered) e) :
    ∃ es, Goes s (s'.endRun i e) i o ((load o.program).emitted k) es := by
  obtain ⟨es, hes, rfl⟩ := hsends
  have hemitted := (load o.program).emitted_inRange n
  have hdelivered : ∀ e ∈ (o.books n).delivered, e.InRange :=
    fun e he => hemitted e (mem_of_delivered he)
  have hreleased := lastWords_inRange m hdelivered
  have hsent : (load o.program).emitted k ++ (es ++ lastWords m (o.books n).delivered) =
      (load o.program).emitted n ++ lastWords m (o.books n).delivered := by
    rw [hes, List.append_assoc]
  rw [hes] at hemitted
  refine ⟨es ++ lastWords m (o.books n).delivered, ?_, hapart.trans (s'.apart_modifyRun i _),
    hsinks.trans (books_append_sinks _ _ _ _).symm,
    List.forall_mem_append.mpr ⟨(List.forall_mem_append.mp hemitted).2, hreleased⟩⟩
  rw [hsent]
  exact hholds.setPhase (.ended e) ⟨n, _, rfl, hmatches⟩

variable (ho : o.sinks.Reliable) (hs : s.rig.sinks.Reliable)
include ho hs

theorem continueRun_goes (h : s.Seated i o r p) {k : Nat} (hk : o.Among k (s.account p r))
    (left : Nat) :
    ∃ es, Goes s (s.continueRun i r p left) i o ((load o.program).emitted k) es := by
  obtain ⟨n, hsends, hshares⟩ := Act.stretch_shares (a := s.act p r) h.deaf h.router ho hs hk left
  have htaken := fun b => takeOver_holds h r p h.own rfl b
  unfold continueRun
  rcases hb : (s.act p r).stretch p.part left with ⟨b, pause⟩
  rw [hb] at hsends hshares
  obtain ⟨hholds, hapart, hrig⟩ := htaken b
  have hsinks : (s.takeOver i r p b).rig.sinks = b.rig.sinks := congrArg Rig.sinks hrig
  cases pause with
  | yield =>
    obtain ⟨es, hes, hbooks⟩ := hsends
    exact ⟨es, (goes_of_stretch hholds hapart hes (hsinks.trans hbooks)
      (.active p.part.yieldInterval) ⟨n, hshares, rfl⟩).passes (.of_eq rfl rfl rfl)⟩
  | wait due =>
    obtain ⟨es, hes, hbooks⟩ := hsends
    have hgoes := fun phase => goes_of_stretch hholds hapart hes (hsinks.trans hbooks) phase
    refine ⟨es, ?_⟩
    dsimp only
    unfold await
    dsimp only
    split
    · exact (hgoes (.waiting { deadline := r.start + due }) ⟨n, hshares, rfl⟩).passes
        (.of_eq rfl rfl rfl)
    · exact (hgoes (.active p.part.yieldInterval) ⟨n, hshares, rfl⟩).passes (.of_eq rfl rfl rfl)
  | listen notice left => exact hshares.elim
  | failed f =>
    obtain ⟨m, x, rfl, rfl, hstuck⟩ := hshares
    obtain ⟨hholds, hapart, hrig⟩ := htaken (b.leave p.part)
    have hleft := Act.leave_shares (a := b) h.router (n := m + 1) (by
      rw [hstuck.account]
      exact congrArg (fun m' => ({ o.account (m + 1) with machine := m' } : Account))
        hstuck.machine_eq.symm)
    dsimp only
    unfold failRun
    rw [h.own]
    exact goes_of_end
      (hholds.modifyPlayer (f := fun p => { p with running := false }) fun p => ⟨rfl, rfl⟩)
      (hapart.trans (apart_modifyPlayer _ i _)) hsends
      ((congrArg Rig.sinks hrig).trans hleft) hstuck.matches
  | «over» =>
    obtain ⟨c, hc, hleft⟩ := Act.conclude_shares h.router h.deaf hshares
    obtain ⟨hholds, hapart, hrig⟩ := htaken c
    dsimp only
    rw [hc]
    dsimp only
    rw [defers_eq_false h.deaf, if_neg Bool.false_ne_true, h.own]
    exact goes_of_end
      (hholds.modifyPlayer (f := fun p =>
        { p with running := false, result := some (o.result n b.machine "") })
        fun p => ⟨rfl, rfl⟩)
      (hapart.trans (apart_modifyPlayer _ i _)) hsends
      ((congrArg Rig.sinks hrig).trans hleft) (Outset.Through.matches hshares)

theorem beginRun_goes (h : s.Seated i o r p) (hprogram : p.machine.program = o.program) :
    ∃ es, Goes s (s.beginRun i r p) i o [] es := by
  obtain ⟨b, hb, -⟩ := Act.enter_nobody h.deaf
    (s.act { p with running := true, cancel := some r.signal } { r with start := s.now })
  -- The sinks are what the others have made of them, and the rest is as at the outset.
  have hentered := (s.act { p with running := true, cancel := some r.signal }
    { r with start := s.now }).enter_account p.part (o := ⟨o.program, o.router, s.rig.sinks⟩)
    hprogram rfl
  rw [hb] at hentered
  have hamong : o.Among 0 b.account := Outset.among_zero (by rw [hentered]; rfl)
  obtain ⟨⟨r', p', hseat, haccount⟩, hapart, hrig⟩ := takeOver_holds h { r with start := s.now }
    { p with running := true, cancel := some r.signal } h.own rfl b
  have hsinks := (congrArg Rig.sinks hrig).trans (congrArg Account.sinks hentered)
  obtain ⟨es, hgoes⟩ := continueRun_goes ho (hsinks ▸ hs) hseat (haccount ▸ hamong)
    p'.part.yieldInterval
  refine ⟨es, ?_⟩
  unfold beginRun
  dsimp only
  rw [hb]
  dsimp only
  rw [defers_eq_false h.deaf, if_neg Bool.false_ne_true, hseat.run,
    (congrArg _ h.own).trans hseat.player]
  exact hgoes.since hapart hsinks

theorem actWait_goes (h : s.Seated i o r p) {w : Wait} (hphase : r.phase = .waiting w) {k : Nat}
    (hk : o.Among k (s.account p r)) :
    ∃ es, Goes s (s.actWait i r p w) i o ((load o.program).emitted k) es := by
  unfold actWait
  split
  · unfold afterWait moveTo
    dsimp only
    split
    · split
      · obtain ⟨es, hgoes⟩ := continueRun_goes (s := { s with now := w.deadline }) ho hs
          ⟨h.run, h.player, h.own, h.router, h.deaf⟩ hk p.part.yieldInterval
        have hmoved : Passes s { s with now := w.deadline } := .of_eq rfl rfl rfl
        exact ⟨es, hgoes.since (hmoved.apart i) rfl⟩
      · exact continueRun_goes ho hs h hk _
    · exact continueRun_goes ho hs h hk _
  · have hpasses := passes_recallLookout (wait?_of_run h.run hphase)
    have htrack : s.Track i o ((load o.program).emitted k) :=
      ⟨r, p, h, by rw [hphase]; exact ⟨k, hk, rfl⟩⟩
    exact ⟨[], .nothing (htrack.passes hpasses) (hpasses.apart i) (congrArg Rig.sinks hpasses.rig)⟩

/-- Whatever its phase, a track that acts dispatches what comes next in its program. -/
theorem actRun_goes (h : s.Track i o sent) : ∃ es, Goes s (s.actRun i) i o sent es := by
  obtain ⟨r, p, hseat, hshares⟩ := id h
  unfold actRun
  rw [hseat.run]
  dsimp only
  rw [hseat.own, hseat.player]
  dsimp only
  cases hphase : r.phase with
  | fresh =>
    rw [hphase] at hshares
    obtain ⟨hprogram, rfl⟩ := hshares
    exact beginRun_goes ho hs hseat hprogram
  | active left =>
    rw [hphase] at hshares
    obtain ⟨k, hk, rfl⟩ := hshares
    exact continueRun_goes ho hs hseat hk left
  | waiting w =>
    obtain ⟨k, hk, rfl⟩ : ∃ n, o.Among n (s.account p r) ∧ sent = (load o.program).emitted n := by
      rw [hphase] at hshares
      exact hshares
    exact actWait_goes ho hs hseat hphase hk
  | telling n next =>
    rw [hphase] at hshares
    exact hshares.elim
  | told failure next =>
    rw [hphase] at hshares
    exact hshares.elim
  | ended e => exact ⟨[], .nothing h (.refl i s) rfl⟩

end

end Stage

end Ostinato.Live
