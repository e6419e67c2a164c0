import Ostinato.Proofs.Endings
import Ostinato.Proofs.Faults
import Ostinato.Proofs.Time
import Ostinato.Proofs.Turns

/-!
# The instruction that a fault names

A fault names the instruction at which its step started, whichever of the machine's checks it comes
from, except what the clock refuses: that is passed on as it is, and the clock knows of no instruction
(`Stepped.index`). It refuses a wait in a unit that it does not know; a clock that has been given a
negative number of ticks per beat refuses beats too, but a machine that follows a program never has one
(`steps_beat`). The fault in the result of a run, offline or live, is the one that a step of its
program has raised (`Follows.traced`).
-/

namespace Ostinato

-- The value of these two is too large to be computed with.
attribute [local irreducible] Binary64.one Binary64.limit

namespace Clock

/-- The clock refuses a wait of that many units, which is not negative. -/
def Refuses (c : Clock) (amount : Int) : TimeUnit → Prop
  | .unknown _ => True
  | .beats => amount * c.ticksPerBeat < 0
  | _ => False

section
variable {c c' : Clock} {amount : Int} {unit : TimeUnit}

theorem refuses_of_fault (ha : 0 ≤ amount) {f : AdvanceFault}
    (h : c.advanceWait amount unit = (c', .error (.advance f))) : c.Refuses amount unit := by
  cases advanceWait_iff.mp h with
  | ticks h =>
    cases h with
    | negative hneg => omega
  | beats h =>
    cases h with
    | negative hneg => exact hneg
  | unknown => trivial
  | span hu hn h =>
    -- Neither factor is negative, so the span is not.
    obtain ⟨mag, rfl, -⟩ := TimeUnit.clockSeconds?_ok hu
    obtain ⟨a, rfl, -, -⟩ := Binary64.ofInt_ok ha hn
    cases h with
    | negative hneg =>
      rw [(Binary64.mul_isSpan a mag).not_negative] at hneg
      cases hneg

theorem Waited.ticksPerBeat {r : Except ClockFault Binary64} (h : c.Waited amount unit c' r) :
    c'.ticksPerBeat = c.ticksPerBeat := by
  cases h with
  | ticks h | beats h => cases h <;> rfl
  | unknown | overflow => rfl
  | span _ _ h => cases h <;> rfl

theorem TempoSet.beat {bpm ticksPerBeat : Int} {r : Except ClockFault Unit}
    (h : c.TempoSet bpm ticksPerBeat c' r) (hc : 0 < c.ticksPerBeat) : 0 < c'.ticksPerBeat := by
  cases h with
  | noBeats | noTicks => exact hc
  | overflow _ ht | set _ ht => exact ht

end

end Clock

namespace Machine

def AsksInVain (m : Machine) : Prop :=
  ∃ w, m.instruction? = some (.wait w) ∧ 0 ≤ w.amount ∧ m.clock.Refuses w.amount w.unit

def WaitsInUnknownUnit (m : Machine) : Prop :=
  ∃ w name, m.instruction? = some (.wait w) ∧ 0 ≤ w.amount ∧ w.unit = .unknown name

section
variable {m m' : Machine} {out : Step} {f : Fault}

/-! ## Steps -/

/-- A fault names the instruction, unless the clock has refused it. -/
theorem Stepped.index (hs : Stepped m m' (.fault f)) :
    f.index = some m.ip ∧ ¬m.AsksInVain ∨ f.index = none ∧ m.AsksInVain := by
  cases hs with
  | lost hf _ hnone =>
    refine .inl ⟨rfl, fun ⟨w, hi, _⟩ => ?_⟩
    rw [instruction?, hf, hnone] at hi
    cases hi
  | refused hi hr =>
    have hsole : ∀ {w : Wait}, m.instruction? = some (.wait w) → _ = Statement.wait w :=
      fun hw => Option.some.inj (hi.symm.trans hw)
    cases hr with
    | wait ha hc => exact .inr ⟨rfl, _, hi, ha, Clock.refuses_of_fault ha hc⟩
    | negativeWait hneg =>
      refine .inl ⟨rfl, fun ⟨w, hw, ha, _⟩ => ?_⟩
      cases hsole hw
      omega
    | unknown _ hnever => exact .inl ⟨rfl, fun ⟨w, hw, _⟩ => hnever w (hsole hw)⟩
    | note hnote =>
      refine .inl ⟨rfl, fun ⟨w, hw, _⟩ => ?_⟩
      cases hsole hw
      cases hnote
    | tempo | target | counter =>
      refine .inl ⟨rfl, fun ⟨w, hw, _⟩ => ?_⟩
      cases hsole hw

theorem Stepped.beat (hs : Stepped m m' out) (h : 0 < m.clock.ticksPerBeat) :
    0 < m'.clock.ticksPerBeat := by
  cases hs with
  | waited _ _ hc | waitOverflow _ _ hc =>
    exact (Clock.advanceWait_iff.mp hc).ticksPerBeat ▸ h
  | tempoSet _ hc | tempoOverflow _ hc => exact (Clock.setTempo_iff.mp hc).beat h
  | _ => exact h

theorem Stepped.record (hs : Stepped m m' out) :
    m'.fault = m.fault ∧ (m'.state = .faulted → m.state = .faulted) ∨
      ∃ f, out = .fault f ∧ m'.fault = some f := by
  cases hs with
  | finished => exact .inl ⟨rfl, id⟩
  | lost | refused => exact .inr ⟨_, rfl, rfl⟩
  | _ => exact .inl ⟨rfl, RunState.noConfusion⟩

end

/-! ## Machines that follow a program -/

theorem steps_beat (p : Program) (n : Nat) : 0 < ((load p).steps n).clock.ticksPerBeat := by
  induction n with
  | zero =>
    show 0 < (load p).clock.ticksPerBeat
    rw [load_clock]
    exact Clock.initial_ticking.beat
  | succ n ih =>
    rw [steps_succ_last]
    exact ((load p).steps n).stepped.beat ih

theorem asksInVain_iff {m : Machine} (h : 0 < m.clock.ticksPerBeat) :
    m.AsksInVain ↔ m.WaitsInUnknownUnit := by
  constructor
  · rintro ⟨w, hi, ha, hrefuses⟩
    unfold Clock.Refuses at hrefuses
    split at hrefuses
    · rename_i name hu
      exact ⟨w, name, hi, ha, hu⟩
    · exact absurd hrefuses (Int.not_lt.mpr (Int.mul_nonneg ha (Int.le_of_lt h)))
    · exact hrefuses.elim
  · rintro ⟨w, name, hi, ha, hu⟩
    refine ⟨w, hi, ha, ?_⟩
    rw [hu]
    trivial

/-- A step of the program raises the fault. It names the instruction at which the step started, unless
that is a wait in a unit that the clock does not know. -/
def Raises (p : Program) (f : Fault) : Prop :=
  ∃ n, ((load p).steps n).step.2 = .fault f ∧
    (f.index = some ((load p).steps n).ip ∧ ¬((load p).steps n).WaitsInUnknownUnit ∨
      f.index = none ∧ ((load p).steps n).WaitsInUnknownUnit)

theorem raises_of_step {p : Program} {n : Nat} {f : Fault}
    (h : ((load p).steps n).step.2 = .fault f) : Raises p f := by
  have hs := ((load p).steps n).stepped
  rw [h] at hs
  have hindex := hs.index
  rw [asksInVain_iff (steps_beat p n)] at hindex
  exact ⟨n, h, hindex⟩

/-- A machine that follows the program from the top, or was cancelled at it. -/
def Follows (p : Program) (m : Machine) : Prop :=
  ∃ n, m = (load p).steps n ∨ m = ((load p).steps n).cancel

theorem follows_load (p : Program) : Follows p (load p) := ⟨0, .inl rfl⟩

theorem Follows.program {p : Program} {m : Machine} (h : Follows p m) : m.program = p := by
  obtain ⟨n, rfl | rfl⟩ := h
  · exact after_program _ _
  · exact (cancel_program _).trans (after_program _ _)

theorem Follows.move {p : Program} {m : Machine} (h : Follows p m) (a : Move) :
    Follows p (m.move a) := by
  have hcancelled : ∀ {m : Machine} {a : Move}, a ≠ .reset → m.cancel.move a = m.cancel :=
    fun ha => move_of_finished (cancel_isFinished _) ha
  cases a with
  | step =>
    obtain ⟨n, rfl | rfl⟩ := h
    · exact ⟨n + 1, .inl (steps_succ_last _ n).symm⟩
    · exact ⟨n, .inr (hcancelled Move.noConfusion)⟩
  | cancel =>
    obtain ⟨n, rfl | rfl⟩ := h
    · exact ⟨n, .inr rfl⟩
    · exact ⟨n, .inr (hcancelled Move.noConfusion)⟩
  | reset =>
    show Follows p (load m.program)
    rw [h.program]
    exact follows_load p

theorem Follows.after {p : Program} {m : Machine} (h : Follows p m) (moves : List Move) :
    Follows p (m.after moves) :=
  after_induct (fun _ a h => h.move a) h moves

/-- The run lemma: what a machine has on record was raised by one of its steps. -/
theorem steps_record (p : Program) (n : Nat) :
    (((load p).steps n).state = .faulted → ∃ f, ((load p).steps n).fault = some f) ∧
      ∀ f, ((load p).steps n).fault = some f → Raises p f := by
  induction n with
  | zero => exact ⟨RunState.noConfusion, fun f h => by cases h⟩
  | succ n ih =>
    obtain ⟨hfaulted, hraised⟩ := ih
    rw [steps_succ_last]
    rcases ((load p).steps n).stepped.record with ⟨hsame, hstate⟩ | ⟨f, hout, hfault⟩
    · rw [hsame]
      exact ⟨fun h => hfaulted (hstate h), hraised⟩
    · rw [hfault]
      refine ⟨fun _ => ⟨f, rfl⟩, fun g hg => ?_⟩
      cases hg
      exact raises_of_step hout

end Machine

open Machine (load Follows Raises)

/-! ## Results -/

/-- A result of the program. It holds a fault if it is faulted, and one that a step has raised. -/
structure RunResult.Traced (p : Program) (r : RunResult) : Prop where
  faulted : r.state = .faulted → ∃ f, r.fault = some f
  fault : ∀ f, r.fault = some f → Raises p f

theorem Machine.Follows.traced {p : Program} {m : Machine} (h : Follows p m) (emitted : Nat)
    (errors : List OutputFault) (reason : String) : (Run.result m emitted errors reason).Traced p := by
  obtain ⟨n, rfl | rfl⟩ := h
  · obtain ⟨hfaulted, hraised⟩ := Machine.steps_record p n
    exact ⟨hfaulted, hraised⟩
  · obtain ⟨hfaulted, hraised⟩ := Machine.steps_record p n
    unfold Machine.cancel
    split
    · exact ⟨hfaulted, hraised⟩
    · exact ⟨RunState.noConfusion, hraised⟩

theorem Render.render_traced {p : Program} {q : Render.Request} {rig rig' : Rig} {patience : Nat}
    {rendering : Rendering} (h : render p q rig patience = (rig', .ok rendering)) :
    rendering.result.Traced p := by
  obtain ⟨n, N, s, hended, hfinish⟩ := ended_of_render h
  have hfollows : Follows p s.machine := by
    cases hended.cause with
    | done hm => exact ⟨n, .inl hm⟩
    | cut hm => exact ⟨N, .inr hm⟩
  have hresult : (s.finish q p).2.result =
      Run.result s.machine s.events.size s.errors.toList s.reason := rfl
  rw [hfinish] at hresult
  rw [hresult]
  exact hfollows.traced _ _ _

namespace Live

theorem play_traced {part : Part} {cue : Cue} {fuel : Nat} {a a' : Act} {r : RunResult}
    (h : play part cue fuel a = (a', some (.ok r))) : r.Traced a.machine.program := by
  obtain ⟨n, hover, -, hresult⟩ := play_ends cue fuel a h
  have hfollows : Follows a.machine.program a'.machine := by
    rcases hover.stopped with ⟨hm, -⟩ | ⟨hm, -⟩
    · exact ⟨n, .inl hm⟩
    · exact ⟨n, .inr hm⟩
  rw [hresult]
  exact hfollows.traced _ _ _

/-- Any result that a run has come to is one of the program. -/
def Phase.Traced (program : Program) : Phase → Prop
  | .telling _ (.finish r) | .told _ (.finish r) | .ended (.ok r) => r.Traced program
  | _ => True

structure Player.Traces (program : Program) (p : Player) : Prop where
  machine : Follows program p.machine
  result : ∀ r, p.result = some r → r.Traced program

section
variable {program : Program} {r : Performance} {p p' : Player} {phase : Phase}

theorem Player.Traces.played (h : p.Traces program) (moves : List Machine.Move) (heard : Heard) :
    (p.played moves heard).Traces program :=
  ⟨h.machine.after moves, h.result⟩

theorem Player.Traces.begun (h : p.Traces program) (signal : Nat) :
    (p.begun signal).Traces program :=
  ⟨h.machine, h.result⟩

theorem Continued.traces (h : Continued p phase p') (hp : p.Traces program) :
    p'.Traces program ∧ phase.Traced program := by
  cases h with
  | @on phase moves heard hplaying =>
    refine ⟨hp.played moves heard, ?_⟩
    unfold Phase.isPlaying at hplaying
    split at hplaying <;> trivial
  | @failed f moves heard => exact ⟨⟨hp.machine.after moves, hp.result⟩, trivial⟩
  | @«over» phase moves heard emitted errors hconcludes =>
    have htraced := (hp.machine.after moves).traced emitted errors ""
    refine ⟨⟨hp.machine.after moves, fun r hr => ?_⟩, ?_⟩
    · cases hr
      exact htraced
    · cases hconcludes with
      | returned => exact htraced
      | telling => exact htraced
      | failed => trivial

theorem Acted.traces (h : Acted r p phase p') (hp : p.Traces program)
    (hr : r.phase.Traced program) : p'.Traces program ∧ phase.Traced program := by
  cases h with
  | refused | begins => exact ⟨(hp.begun r.signal).played _ _, trivial⟩
  | begun _ _ h => exact h.traces ((hp.begun r.signal).played _ _)
  | continued _ h => exact h.traces hp
  | waits => exact ⟨hp, trivial⟩
  | @tells n next heard hphase =>
    refine ⟨hp.played [] heard, ?_⟩
    rw [hphase] at hr
    cases next <;> exact hr
  | failed => exact ⟨⟨hp.machine, hp.result⟩, trivial⟩
  | spoilt => exact ⟨hp, trivial⟩
  | @returns result hphase =>
    refine ⟨hp, ?_⟩
    rw [hphase] at hr
    show (p.result.getD result).Traced program
    cases hresult : p.result with
    | none => exact hr
    | some latest => exact hp.result latest hresult
  | stays hphase => exact ⟨hp, hphase ▸ hr⟩

end

namespace Stage

theorem traces_last (program : Program) :
    Lasting (fun _ => True) (Player.Traces program) (Phase.Traced program) where
  acted h hp hr := h.traces hp hr
  fresh := trivial
  like h ha := by
    cases h with
    | refl => exact ha
    | wait => trivial
  limit {phase} n h := by cases phase <;> exact h
  launched _ _ h := ⟨h.machine, h.result⟩
  rearranged h hp := ⟨h.machine ▸ hp.machine, fun r hr => hp.result r (h.result ▸ hr)⟩

theorem traces_unfolds {program : Program} {router : Router} {listeners : List Listener}
    {spinWait : Bool} {yieldInterval : Int} {p₀ : Player} {who : Nat} {s₀ s : Stage}
    (hcreate : Player.create program router listeners spinWait yieldInterval = .ok p₀)
    (hp₀ : s₀.players[who]? = some p₀) (hruns : s₀.runs = #[])
    (h : Unfolds (fun _ _ => True) s₀ s) :
    s.Upholds who (Player.Traces program) (Phase.Traced program) := by
  obtain ⟨n, rfl⟩ := create_ok hcreate
  have h₀ : s₀.Upholds who (Player.Traces program) (Phase.Traced program) := by
    refine ⟨fun q hq => ?_, fun i r hr => ?_⟩
    · rw [hp₀] at hq
      cases hq
      exact ⟨Machine.follows_load program, fun r hr => by cases hr⟩
    · rw [hruns] at hr
      cases hr
  exact h₀.unfolds (traces_last program) h

theorem Upholds.ending_traced {program : Program} {who : Nat} {s : Stage}
    (h : s.Upholds who (Player.Traces program) (Phase.Traced program)) {i : Nat} {run : Performance}
    (hrun : s.runs[i]? = some run) (hwho : run.player = who) {r : RunResult}
    (hended : s.ending? i = some (.ok r)) : r.Traced program := by
  have htraced := h.runs i run hrun hwho
  unfold ending? at hended
  rw [hrun] at hended
  have hphase : run.phase.ending? = some (.ok r) := hended
  unfold Phase.ending? at hphase
  split at hphase
  · rename_i e he
    cases hphase
    rw [he] at htraced
    exact htraced
  · cases hphase

end Stage

end Live

open Live Live.Stage in
/-- **Every fault names its instruction, unless the clock does not know the unit of a wait.** Whatever
the program and the state of the machine, a step that faults names the instruction at which it started,
unless that is a wait that the clock refuses; then it names none. So does the fault in the result of
every run that has faulted: of a render, of a player by itself, and of a player on any stage, however
its runs, their listeners and their callers take turns. -/
theorem faults_name_their_instruction (p : Program) :
    (∀ (m : Machine) (f : Fault), m.program = p → m.step.2 = .fault f →
      f.index = some m.ip ∧ ¬m.AsksInVain ∨ f.index = none ∧ m.AsksInVain) ∧
    (∀ (q : Render.Request) (rig rig' : Rig) (patience : Nat) (rendering : Rendering),
      render p q rig patience = (rig', .ok rendering) → rendering.result.Traced p) ∧
    (∀ (part : Part) (cue : Cue) (fuel : Nat) (a a' : Act) (r : RunResult),
      a.machine.program = p → play part cue fuel a = (a', some (.ok r)) → r.Traced p) ∧
    ∀ (router : Router) (listeners : List Listener) (spinWait : Bool) (yieldInterval : Int)
      (p₀ : Player) (who : Nat) (s₀ s : Stage),
      Player.create p router listeners spinWait yieldInterval = .ok p₀ →
      s₀.players[who]? = some p₀ → s₀.runs = #[] → Unfolds (fun _ _ => True) s₀ s →
      (∀ player r, s.players[who]? = some player → player.result = some r → r.Traced p) ∧
        ∀ (i : Nat) (run : Performance) (r : RunResult), s.runs[i]? = some run → run.player = who →
          s.ending? i = some (.ok r) → r.Traced p := by
  refine ⟨fun m f _ hf => ?_, fun q rig rig' patience rendering => Render.render_traced,
    fun part cue fuel a a' r hp hplay => hp ▸ play_traced hplay,
    fun router listeners spinWait yieldInterval p₀ who s₀ s hcreate hp₀ hruns h => ?_⟩
  · have hs := m.stepped
    rw [hf] at hs
    exact hs.index
  · have hupholds := traces_unfolds hcreate hp₀ hruns h
    exact ⟨fun player r hplayer hr => (hupholds.player player hplayer).result r hr,
      fun i run r hrun hwho hended => hupholds.ending_traced hrun hwho hended⟩

open Live in
/-- A counter that somebody has spoilt, and a pitch out of range at the fifth instruction of a program
that is rendered, played by itself and played on a stage. -/
theorem faults_name_their_instruction_stranded :
    (Machine.spoilt.step.2 = .fault ⟨.negativeCounter (-1), some 1⟩ ∧
      ¬Machine.spoilt.AsksInVain) ∧
    (∃ rig' rendering, render stranded { limits := { maxSteps := some 9 } } {} 0 =
        (rig', .ok rendering) ∧
      rendering.result.state = .faulted ∧ rendering.result.Traced stranded) ∧
    (∃ a' r, play { router := {} } noCue 9 { machine := load stranded, rig := {} } =
        (a', some (.ok r)) ∧
      r.state = .faulted ∧ r.Traced stranded) ∧
    ∃ s' r, strandedStage.runPlayer 0 {} 100 = (s', some (.ok r)) ∧
      r.state = .faulted ∧ r.Traced stranded := by
  have hspoilt : Machine.spoilt.step.2 = .fault ⟨.negativeCounter (-1), some 1⟩ := by decide
  refine ⟨⟨hspoilt, ?_⟩, ?_, ?_, ?_⟩
  · rcases (faults_name_their_instruction _).1 _ _ rfl hspoilt with ⟨-, hsure⟩ | ⟨hnone, -⟩
    · exact hsure
    · cases hnone
  · have hstate : ((render stranded { limits := { maxSteps := some 9 } } {} 0).2.toOption.map
        (·.result.state)) = some .faulted := by decide +kernel
    generalize hrender : render stranded { limits := { maxSteps := some 9 } } {} 0 = x at hstate
    obtain ⟨rig', _ | rendering⟩ := x
    · cases hstate
    · exact ⟨rig', rendering, rfl, Option.some.inj hstate,
        (faults_name_their_instruction _).2.1 _ _ _ _ _ hrender⟩
  · have hstate : (answer? (play { router := {} } noCue 9
        { machine := load stranded, rig := {} }).2).map (·.state) = some .faulted := by
      decide +kernel
    generalize hplay : play { router := {} } noCue 9 { machine := load stranded, rig := {} } = x
      at hstate
    obtain ⟨a', e⟩ := x
    obtain ⟨r, hr, hfaulted⟩ := Option.map_eq_some_iff.mp hstate
    cases eq_of_answer? (x := (strandedStage, e)) hr
    exact ⟨a', r, rfl, hfaulted, (faults_name_their_instruction _).2.2.1 _ _ _ _ _ _ rfl hplay⟩
  · have hstate : (answer? (strandedStage.runPlayer 0 {} 100).2).map (·.state) =
        some .faulted := by decide +kernel
    have hplayer : ((strandedStage.runPlayer 0 {} 100).1.runs[0]?.map (·.player)) = some 0 := by
      decide +kernel
    have hunfolds : Stage.Unfolds (fun _ _ => True) strandedStage
        (strandedStage.runPlayer 0 {} 100).1 := Stage.Unfolds.start.runPlayer 0 {} 100
    have hp : strandedStage.players[0]? = some strandedStage.players[0] := rfl
    have hended := (Stage.runPlayer_solo strandedStage_idle hp {} 100).2
    obtain ⟨-, htraced⟩ := (faults_name_their_instruction stranded).2.2.2 _ [] true 1 _ 0
      strandedStage _ rfl hp rfl hunfolds
    generalize strandedStage.runPlayer 0 {} 100 = x at hstate hplayer hended htraced
    obtain ⟨s', e⟩ := x
    obtain ⟨r, hr, hfaulted⟩ := Option.map_eq_some_iff.mp hstate
    obtain ⟨run, hrun, hwho⟩ := Option.map_eq_some_iff.mp hplayer
    cases eq_of_answer? (x := (s', e)) hr
    exact ⟨s', r, rfl, hfaulted, htraced 0 run r hrun hwho hended.symm⟩

def weeks : Program where
  instructions := #[.wait ⟨5, .unknown "weeks", ⟨1, 1⟩⟩]

/-- The fault of its first step names no instruction. -/
theorem unknown_unit_names_none :
    (load weeks).step.2 = .fault ⟨.advance (.unknownUnit "weeks"), none⟩ ∧ (load weeks).ip = 0 ∧
      ((render weeks { limits := { maxSteps := some 9 } } {} 0).2.toOption.map
        (fun rendering => rendering.result.fault.map (·.index))) = some (some none) := by
  decide +kernel

end Ostinato
