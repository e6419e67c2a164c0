import Ostinato.Proofs.Rendering
import Ostinato.Proofs.Staging

/-!
# How runs end

A run dispatches what its machine emits, one event after the other, and when it stops it dispatches
a note-off for each note it left sounding, unless its program halted. `Outset.Leaves` says so of the
sinks. Every way out of a run is such an end: a result, a failure or a dismissal, live or offline.
And since nothing but the account decides what a run dispatches, a live run that was not cancelled
and a render of the same program come to the same end.
-/

namespace Ostinato

open Machine (load)
open Live (Ending Ends Part Cue Act Player Performance Stage)

/-- What a run leaves behind that has handled `n` steps and stopped with a machine `m`. -/
structure Outset.Leaves (o : Outset) (n : Nat) (m : Machine) (sinks : Sinks)
    (released : List Event) : Prop where
  /-- The events of the program were dispatched in order, and the releases after them. -/
  dispatched : sinks = (o.router.books o.sinks ((load o.program).emitted n ++ released)).sinks
  releases : Releases m.state m.clock.now m.clock.ticks (o.books n).delivered released
  /-- If no release failed, every note that was delivered is off. -/
  silent : m.state ≠ .halted →
    (o.router.books o.sinks ((load o.program).emitted n ++ released)).errors = (o.books n).errors →
    ∀ k e, Sounding.last? k
      (o.router.books o.sinks ((load o.program).emitted n ++ released)).delivered = some e →
        e.sounds = false

namespace Outset

section
variable {o : Outset} {n : Nat} {a : Account}

theorem finalSinks_leaves (o : Outset) (n : Nat) (m : Machine) :
    o.Leaves n m (o.finalSinks n m) (lastWords m (o.books n).delivered) := by
  have hreleases := lastWords_releases m (o.books n).delivered
  refine ⟨rfl, hreleases, fun hm herrors k e he => ?_⟩
  rw [books_append] at herrors he
  have hdelivered := delivered_of_errors (o.books n) (lastWords m (o.books n).delivered)
    (congrArg List.length herrors)
  exact hreleases.silent hm k e (hdelivered ▸ he)

theorem Closed.leaves (h : o.Closed a) :
    ∃ n released, (a.machine = o.machine n ∨ a.machine = (o.machine n).cancel) ∧
      o.Leaves n a.machine a.sinks released := by
  obtain ⟨n, hm, hsinks⟩ := h
  exact ⟨n, _, hm, hsinks ▸ o.finalSinks_leaves n a.machine⟩

end

end Outset

/-- What is told of a run that has a result. -/
def Live.Told (m : Machine) : Ending → Prop
  | .ok r => r.state = m.state ∧ r.seconds = m.clock.now ∧ r.ticks = m.clock.ticks
  | .error _ => True

theorem Live.Ends.told {o : Outset} {a : Account} {e : Ending} (h : Ends o a e) :
    Live.Told a.machine e := by
  cases e with
  | ok r =>
    obtain ⟨n, -, -, hr⟩ := h
    rw [hr]
    exact ⟨rfl, rfl, rfl⟩
  | error f => trivial

/-- What is told of a render, and what it has collected. -/
def Render.Told (o : Outset) (n : Nat) (m : Machine) (r : Rendering) : Prop :=
  r.result.state = m.state ∧ r.result.seconds = m.clock.now ∧ r.result.ticks = m.clock.ticks ∧
    r.events = (o.books n).delivered

/-- The result that a run has given. -/
def Live.answer? : Option Ending → Option RunResult
  | some (.ok r) => some r
  | _ => none

theorem Live.eq_of_answer? {x : Stage × Option Ending} {r : RunResult} (h : answer? x.2 = some r) :
    x = (x.1, some (.ok r)) := by
  obtain ⟨s, e⟩ := x
  unfold answer? at h
  split at h
  · rename_i r' he
    cases h
    exact congrArg (Prod.mk s) he
  · cases h

/-- Why a run was left without one. -/
def Live.fault? : Option Ending → Option RunFault
  | some (.error f) => some f
  | _ => none

theorem Live.eq_of_fault? {x : Stage × Option Ending} {f : RunFault} (h : fault? x.2 = some f) :
    x = (x.1, some (.error f)) := by
  obtain ⟨s, e⟩ := x
  unfold fault? at h
  split at h
  · rename_i f' he
    cases h
    exact congrArg (Prod.mk s) he
  · cases h

/-- A program that fails with a note on. Of its other notes one is for an output that nobody has
bound. -/
def stranded : Program where
  instructions := #[
    .send ⟨true, 0, 60, 90, none, ⟨1, 1⟩⟩, .send ⟨true, 0, 64, 90, some "lead", ⟨2, 1⟩⟩,
    .wait ⟨3, .ticks, ⟨3, 1⟩⟩, .send ⟨true, 0, 67, 90, none, ⟨4, 1⟩⟩,
    .send ⟨true, 0, 200, 90, none, ⟨5, 1⟩⟩]

/-- A player of `stranded`, with a sink whose second send fails. -/
def strandedStage : Stage where
  rig := { sinks := [("main", .recorder (· == 1) "unplugged" 0 #[])] }
  players := #[{
    machine := load stranded
    part := { router := { default := some "main" }, yieldInterval := 1 } }]

theorem strandedStage_idle : strandedStage.Idle := by
  intro i r h
  simp [strandedStage] at h

/-- The same player, with a listener that fails at the second error. -/
def touchyStage : Stage where
  rig := strandedStage.rig
  players := #[{
    machine := load stranded
    part := {
      router := { default := some "main" }
      listeners := [{
        id := "e", occasion := .outputError
        reaction := fun call => if call = 2 then .fail "no" else .record }]
      yieldInterval := 1 } }]

theorem touchyStage_idle : touchyStage.Idle := by
  intro i r h
  simp [touchyStage] at h

/-! ## Stopping -/

/-- **No run leaves notes sounding but one that halts.** Whatever ends a run, it has dispatched what
its machine emitted up to then, and after that one note-off for each note whose last delivered event
made it sound, and nothing else. The runs are those of a player in the foreground, whether they give
a result or fail, listeners failing at whichever of their calls; those that are dismissed at a
scheduling point; those of a player by itself, with any cue to stop; and renders through a router,
with any limits. -/
theorem stopped_runs_release :
    (∀ (s s' : Stage) (who : Nat) (p : Player) (c : Stage.Cancellation) (fuel : Nat) (e : Ending),
      s.Idle → s.players[who]? = some p → s.runPlayer who c fuel = (s', some e) →
      ∃ p' n released, s'.players[who]? = some p' ∧
        (p'.machine = (load p.machine.program).steps n ∨
          p'.machine = ((load p.machine.program).steps n).cancel) ∧
        Outset.Leaves ⟨p.machine.program, p.part.router, s.rig.sinks⟩ n p'.machine s'.rig.sinks
          released ∧
        Live.Told p'.machine e) ∧
    (∀ (s s' : Stage) (who : Nat) (p : Player) (c : Stage.Cancellation) (fuel : Nat)
      (e : Option Ending) (r : Performance),
      s.Idle → s.players[who]? = some p → s.runPlayer who c fuel = (s', e) →
      s'.runs[s.runs.size]? = some r → r.phase.isPlaying = true →
      ∃ p' n released, (s'.dismissRun s.runs.size).players[who]? = some p' ∧
        (p'.machine = (load p.machine.program).steps n ∨
          p'.machine = ((load p.machine.program).steps n).cancel) ∧
        Outset.Leaves ⟨p.machine.program, p.part.router, s.rig.sinks⟩ n p'.machine
          (s'.dismissRun s.runs.size).rig.sinks released) ∧
    (∀ (part : Part) (cue : Cue) (fuel : Nat) (a a' : Act) (e : Ending),
      Live.play part cue fuel a = (a', some e) →
      ∃ n released,
        (a'.machine = (load a.machine.program).steps n ∨
          a'.machine = ((load a.machine.program).steps n).cancel) ∧
        Outset.Leaves ⟨a.machine.program, part.router, a.rig.sinks⟩ n a'.machine a'.rig.sinks
          released ∧
        Live.Told a'.machine e) ∧
    (∀ (p : Program) (q : Render.Request) (r : Router) (rig rig' : Rig) (patience : Nat)
      (rendering : Rendering),
      q.router = some r → render p q rig patience = (rig', .ok rendering) →
      ∃ m n released,
        (m = (load p).steps n ∨ m = ((load p).steps n).cancel ∨
          m = ((load p).steps (n + 1)).cancel) ∧
        Outset.Leaves ⟨p, r, rig.sinks⟩ n m rig'.sinks released ∧
        Render.Told ⟨p, r, rig.sinks⟩ n m rendering) := by
  refine ⟨fun s s' who p c fuel e hidle hp hrun => ?_,
    fun s s' who p c fuel e r hidle hp hrun hr hplaying => ?_, fun part cue fuel a a' e hplay => ?_,
    fun p q r rig rig' patience rendering hq hrender => ?_⟩
  · obtain ⟨p', a, hp', hmachine, hsinks, hends⟩ := Stage.runPlayer_ends hidle hp hrun
    obtain ⟨n, released, hm, hleaves⟩ := hends.closed.leaves
    have htold := hends.told
    rw [hmachine] at hm hleaves htold
    rw [hsinks] at hleaves
    exact ⟨p', n, released, hp', hm, hleaves, htold⟩
  · obtain ⟨p', a, hp', hmachine, hsinks, hclosed⟩ :=
      Stage.dismissRun_closed hidle hp hrun hr hplaying
    obtain ⟨n, released, hm, hleaves⟩ := hclosed.leaves
    rw [hmachine] at hm hleaves
    rw [hsinks] at hleaves
    exact ⟨p', n, released, hp', hm, hleaves⟩
  · have hends := Live.play_ends cue fuel a hplay
    obtain ⟨n, released, hm, hleaves⟩ := hends.closed.leaves
    exact ⟨n, released, hm, hleaves, hends.told⟩
  · obtain ⟨n, m, hm, hsinks, hevents, reason, hresult⟩ := Render.render_ends hq hrender
    refine ⟨m, n, _, hm, hsinks ▸ Outset.finalSinks_leaves _ n m, ?_⟩
    unfold Render.Told
    rw [hresult]
    exact ⟨rfl, rfl, rfl, hevents⟩

/-- Cancelled when it first gives way, the run releases its first note, and so it does when a listener
fails that has heard of an error before. -/
theorem stopped_runs_release_stranded :
    (∃ (s' : Stage) (r : RunResult) (p' : Player) (n : Nat) (released : List Event),
      strandedStage.runPlayer 0 { atYield := some 1 } 100 = (s', some (.ok r)) ∧
        r.state = .cancelled ∧ s'.players[0]? = some p' ∧
        Outset.Leaves ⟨stranded, { default := some "main" }, strandedStage.rig.sinks⟩ n p'.machine
          s'.rig.sinks released ∧
        Live.Told p'.machine (.ok r)) ∧
    ∃ (s' : Stage) (p' : Player) (n : Nat) (released : List Event),
      touchyStage.runPlayer 0 {} 100 = (s', some (.error (.listener "no"))) ∧
        s'.players[0]? = some p' ∧ p'.machine.executed = 4 ∧
        Outset.Leaves ⟨stranded, { default := some "main" }, touchyStage.rig.sinks⟩ n p'.machine
          s'.rig.sinks released := by
  constructor
  · have hstate : (Live.answer? (strandedStage.runPlayer 0 { atYield := some 1 } 100).2).map
        (·.state) = some .cancelled := by decide +kernel
    obtain ⟨r, hr, hcancelled⟩ := Option.map_eq_some_iff.mp hstate
    have hrun := Live.eq_of_answer? hr
    obtain ⟨p', n, released, hp', -, hleaves, htold⟩ :=
      stopped_runs_release.1 _ _ 0 _ _ _ _ strandedStage_idle rfl hrun
    exact ⟨_, r, p', n, released, hrun, hcancelled, hp', hleaves, htold⟩
  · have hfault : Live.fault? (touchyStage.runPlayer 0 {} 100).2 = some (.listener "no") := by
      decide +kernel
    have hexecuted : ((touchyStage.runPlayer 0 {} 100).1.players[0]?).map (·.machine.executed) =
        some 4 := by decide +kernel
    have hrun := Live.eq_of_fault? hfault
    obtain ⟨p', n, released, hp', -, hleaves, -⟩ :=
      stopped_runs_release.1 _ _ 0 _ _ _ _ touchyStage_idle rfl hrun
    rw [hp'] at hexecuted
    exact ⟨_, p', n, released, hrun, hp', Option.some.inj hexecuted, hleaves⟩

/-! ## Live and offline -/

section
variable {s s' : Stage} {who : Nat} {p : Player} {c : Stage.Cancellation} {fuel : Nat}
  {r : RunResult}

/-- **Live and offline runs agree.** If a player comes to the end of its program, a render that has
room for as many instructions dispatches the same events and gives the same result. Listeners, the
intervals at which the player gives way and how it waits make no difference. -/
theorem render_agrees (hidle : s.Idle) (hp : s.players[who]? = some p)
    (hrun : s.runPlayer who c fuel = (s', some (.ok r)))
    (hend : r.state = .halted ∨ r.state = .faulted) {limit : Int}
    (hlimit : (r.executed : Int) < limit) {rig : Rig} (hrig : rig.sinks = s.rig.sinks)
    (patience : Nat) :
    ∃ rig' rendering n released,
      render p.machine.program (Render.upTo p.part.router limit) rig patience =
        (rig', .ok rendering) ∧
      rendering.result = r ∧
      rig'.sinks = s'.rig.sinks ∧
      Outset.Leaves ⟨p.machine.program, p.part.router, s.rig.sinks⟩ n
        ((load p.machine.program).steps n) s'.rig.sinks released ∧
      Outset.Leaves ⟨p.machine.program, p.part.router, rig.sinks⟩ n
        ((load p.machine.program).steps n) rig'.sinks released := by
  obtain ⟨p', a, -, -, hsinks, hends⟩ := Stage.runPlayer_ends hidle hp hrun
  obtain ⟨n, hover, hfinal, hresult⟩ := hends
  have hstate : a.machine.state = r.state := by
    rw [hresult]
    rfl
  have hkept : a.machine.state ≠ .cancelled := by
    rw [hstate]
    rcases hend with h | h <;> rw [h] <;> decide
  obtain ⟨hm, hlast⟩ := hover.not_cancelled hkept
  change a.machine = _ at hm
  rw [hm] at hfinal hresult
  have hexecuted : r.executed = (Outset.machine _ n).executed := congrArg RunResult.executed hresult
  obtain ⟨rig', rendering, hrender, hrig', hrendered⟩ := Render.render_upTo hover.calm hover.going
    hlast (hexecuted ▸ hlimit) hrig patience
  have hsame : rig'.sinks = s'.rig.sinks := hrig'.trans (hfinal.symm.trans hsinks)
  obtain ⟨released, hleaves⟩ : ∃ released,
      Outset.Leaves ⟨p.machine.program, p.part.router, s.rig.sinks⟩ n
        ((load p.machine.program).steps n) rig'.sinks released :=
    ⟨_, hrig' ▸ Outset.finalSinks_leaves _ n _⟩
  refine ⟨rig', rendering, n, released, hrender, hrendered.trans hresult.symm, hsame, ?_, ?_⟩
  · rw [← hsame]
    exact hleaves
  · rw [hrig]
    exact hleaves

end

theorem render_agrees_stranded : ∃ s' r rig' rendering,
    strandedStage.runPlayer 0 {} 100 = (s', some (.ok r)) ∧ r.state = .faulted ∧
      render stranded (Render.upTo { default := some "main" } (r.executed + 1))
        strandedStage.rig 0 = (rig', .ok rendering) ∧
      rendering.result = r ∧ rig'.sinks = s'.rig.sinks := by
  have hstate : (Live.answer? (strandedStage.runPlayer 0 {} 100).2).map (·.state) =
      some .faulted := by decide +kernel
  obtain ⟨r, hr, hfaulted⟩ := Option.map_eq_some_iff.mp hstate
  have hrun := Live.eq_of_answer? hr
  obtain ⟨rig', rendering, -, -, hrender, hresult, hsinks, -⟩ :=
    render_agrees strandedStage_idle rfl hrun (.inr hfaulted) (Int.lt_succ _) rfl 0
  exact ⟨_, r, rig', rendering, hrun, hfaulted, hrender, hresult, hsinks⟩

end Ostinato
