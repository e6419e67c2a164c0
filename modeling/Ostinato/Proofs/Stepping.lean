import Ostinato.Machine
import Ostinato.Proofs.Forest
import Ostinato.Proofs.Timing

/-!
# What a step can do

`Stepped m m' out` lists everything a step can do, with its guards: the machine it starts from is
`m`, the one it leaves is `m'` and `out` is what it reports. `stepped` says that the list is
complete, for any program and any state, so that what holds of every step is proved by cases on it
and no other proof opens the machine.

A machine is driven by three moves: it is stepped, cancelled or reset. `after` is a run of them.
-/

namespace Ostinato

def Step.overflow? : Step → Option Overflow
  | .overflow o => some o
  | _ => none

theorem Step.ne_overflow {out : Step} (h : out.overflow? = none) (o : Overflow) :
    out ≠ .overflow o := by
  rintro rfl
  cases h

namespace Machine

/-! ## Steps -/

/-- The instruction that the next step executes. -/
def instruction? (m : Machine) : Option Statement :=
  if m.isFinished then none else m.program.at? m.ip

/-- The machine as an instruction finds it. -/
def fetched (m : Machine) : Machine := { m with state := .running, executed := m.executed + 1 }

/-- What an instruction that is a note comes to: its event, or why there is none. -/
inductive NoteOf (m : Machine) : Statement → Except (FaultCause ⊕ Overflow) Event → Prop where
  | note {s : Send} : NoteOf m (.send s) ((m.event s).mapError .inl)
  | loose {s : LooseSend} : NoteOf m (.looseSend s) (m.looseEvent s)

inductive Refusal (m : Machine) : Statement → Fault → Prop where
  | note {s : Statement} {cause : FaultCause} :
      m.NoteOf s (.error (.inl cause)) → Refusal m s ⟨cause, some m.ip⟩
  | negativeWait {w : Wait} :
      w.amount < 0 → Refusal m (.wait w) ⟨.negativeWait w.amount w.unit, some m.ip⟩
  | wait {w : Wait} {f : AdvanceFault} :
      0 ≤ w.amount → m.clock.advanceWait w.amount w.unit = (m.clock, .error (.advance f)) →
      Refusal m (.wait w) ⟨.advance f, none⟩
  | tempo {t : Tempo} {f : TempoFault} :
      m.clock.setTempo t.bpm t.ticksPerBeat = (m.clock, .error (.tempo f)) →
      Refusal m (.tempo t) ⟨.tempo f, some m.ip⟩
  | target {j : Jump} :
      (∀ t, j.target = some t → ¬(0 ≤ t ∧ t ≤ m.program.length)) →
      Refusal m (.jump j) ⟨.jumpTarget j.target, some m.ip⟩
  | counter {j : Jump} {cause : FaultCause} :
      m.counters.take m.ip j.count = .error cause → Refusal m (.jump j) ⟨cause, some m.ip⟩
  | unknown {s : Statement} :
      (∀ x, ¬m.NoteOf s x) → (∀ x, s ≠ .wait x) → (∀ x, s ≠ .jump x) → (∀ x, s ≠ .tempo x) →
      Refusal m s ⟨.unknownInstruction (Describe.statement s), some m.ip⟩

inductive Stepped (m : Machine) : Machine → Step → Prop where
  | finished : m.isFinished = true → Stepped m m (.halt m.clock.now)
  | ended : m.isFinished = false → m.ip = m.program.length →
      Stepped m { m with state := .halted } (.halt m.clock.now)
  | lost : m.isFinished = false → m.ip ≠ m.program.length → m.program.at? m.ip = none →
      Stepped m { m with state := .faulted, fault := some ⟨.pointerOutside, some m.ip⟩ }
        (.fault ⟨.pointerOutside, some m.ip⟩)
  | sent {s : Statement} {e : Event} : m.instruction? = some s → m.NoteOf s (.ok e) →
      Stepped m m.fetched.next (.emit e)
  /-- A value of the note is no number. -/
  | broken {s : Statement} {o : Overflow} : m.instruction? = some s → m.NoteOf s (.error (.inr o)) →
      Stepped m m.fetched (.overflow o)
  | waited {w : Wait} {c : Clock} {due : Binary64} : m.instruction? = some (.wait w) →
      0 ≤ w.amount → m.clock.advanceWait w.amount w.unit = (c, .ok due) →
      Stepped m { m.fetched with clock := c }.next (.suspend due (c.ticks - m.clock.ticks))
  | waitOverflow {w : Wait} {c : Clock} {o : Overflow} : m.instruction? = some (.wait w) →
      0 ≤ w.amount → m.clock.advanceWait w.amount w.unit = (c, .error (.overflow o)) →
      Stepped m { m.fetched with clock := c } (.overflow o)
  | tempoSet {t : Tempo} {c : Clock} : m.instruction? = some (.tempo t) →
      m.clock.setTempo t.bpm t.ticksPerBeat = (c, .ok ()) →
      Stepped m { m.fetched with clock := c }.next (.proceed c.now)
  | tempoOverflow {t : Tempo} {c : Clock} {o : Overflow} : m.instruction? = some (.tempo t) →
      m.clock.setTempo t.bpm t.ticksPerBeat = (c, .error (.overflow o)) →
      Stepped m { m.fetched with clock := c } (.overflow o)
  | jumped {j : Jump} {t : Int} {cs : Counters} {taken : Bool} :
      m.instruction? = some (.jump j) → j.target = some t → 0 ≤ t ∧ t ≤ m.program.length →
      m.counters.take m.ip j.count = .ok (cs, taken) →
      Stepped m { m.fetched with counters := cs, ip := if taken then t else m.ip + 1 }
        (.proceed m.clock.now)
  | refused {s : Statement} {f : Fault} : m.instruction? = some s → Refusal m s f →
      Stepped m { m.fetched with state := .faulted, fault := some f } (.fault f)

section
variable {m : Machine}

theorem NoteOf.event {s : Send} {x : Except FaultCause Event} (h : m.event s = x) :
    m.NoteOf (.send s) (x.mapError .inl) :=
  h ▸ .note

/-- With numbers it is the event of a note, but for its output. -/
theorem looseEvent_of_numbers {s : LooseSend} {channel velocity : Int}
    (hc : s.channel.asNumber = .ok channel) (hv : s.velocity.asNumber = .ok velocity) :
    m.looseEvent s = ((m.event ⟨s.on, channel, s.pitch, velocity, none, s.pos⟩).mapError .inl).map
      fun e => { e with output := s.output.outputName? } := by
  unfold looseEvent
  rw [hc, hv]
  show ((m.event ⟨s.on, channel, s.pitch, velocity, none, s.pos⟩).mapError Sum.inl >>= fun e =>
    .ok { e with output := s.output.outputName? }) = _
  cases m.event ⟨s.on, channel, s.pitch, velocity, none, s.pos⟩ with
  | error => rfl
  | ok e => rfl

theorem exists_numbers {s : LooseSend} {e : Event} (h : m.looseEvent s = .ok e) :
    ∃ channel velocity, s.channel.asNumber = .ok channel ∧ s.velocity.asNumber = .ok velocity := by
  unfold looseEvent at h
  cases hc : s.channel.asNumber with
  | error o =>
    rw [hc] at h
    cases h
  | ok channel =>
    refine ⟨channel, ?_⟩
    cases hv : s.velocity.asNumber with
    | ok velocity => exact ⟨velocity, rfl, rfl⟩
    | error o =>
      rw [hc, hv] at h
      replace h : ((m.event ⟨s.on, channel, s.pitch, 0, none, s.pos⟩).mapError Sum.inl >>= fun _ =>
        .error (Sum.inr o)) = Except.ok e := h
      cases he : m.event ⟨s.on, channel, s.pitch, 0, none, s.pos⟩ <;> rw [he] at h <;> cases h

/-- Whatever it is addressed to, an event is that of a note with numbers. -/
theorem NoteOf.exists_event {s : Statement} {e : Event} (h : m.NoteOf s (.ok e)) :
    ∃ (n : Send) (e' : Event), m.event n = .ok e' ∧ e = { e' with output := e.output } := by
  generalize hx : Except.ok e = x at h
  cases h with
  | @note n =>
    cases he : m.event n with
    | error =>
      rw [he] at hx
      cases hx
    | ok e' =>
      rw [he] at hx
      cases hx
      exact ⟨n, e, he, rfl⟩
  | @loose s =>
    obtain ⟨channel, velocity, hc, hv⟩ := exists_numbers hx.symm
    rw [looseEvent_of_numbers hc hv] at hx
    cases he : m.event ⟨s.on, channel, s.pitch, velocity, none, s.pos⟩ with
    | error =>
      rw [he] at hx
      cases hx
    | ok e' =>
      rw [he] at hx
      cases hx
      exact ⟨_, e', he, rfl⟩

theorem NoteOf.of_send {n : Send} {e : Event} (h : m.NoteOf (.send n) (.ok e)) :
    m.event n = .ok e := by
  generalize hx : Except.ok e = x at h
  cases h with
  | note =>
    cases he : m.event n <;> rw [he] at hx <;> cases hx
    rfl

/-- Only a note with values of any kind can lack a number. -/
theorem NoteOf.exists_loose {s : Statement} {o : Overflow} (h : m.NoteOf s (.error (.inr o))) :
    ∃ l, s = .looseSend l ∧ m.looseEvent l = .error (.inr o) := by
  generalize hx : Except.error (Sum.inr o) = x at h
  cases h with
  | @note n => cases he : m.event n <;> rw [he] at hx <;> cases hx
  | @loose l => exact ⟨l, rfl, rfl⟩

theorem NoteOf.looseEvent {s : LooseSend} {x : Except (FaultCause ⊕ Overflow) Event}
    (h : m.looseEvent s = x) : m.NoteOf (.looseSend s) x :=
  h ▸ .loose

theorem NoteOf.fetched {s : Statement} {x : Except (FaultCause ⊕ Overflow) Event}
    (h : m.NoteOf s x) : m.fetched.NoteOf s x := by
  cases h with
  | note => exact .note
  | loose => exact .loose

theorem stepped_send {s : Send} (hi : m.instruction? = some (.send s)) :
    Stepped m (m.fetched.executeSend s).1 (m.fetched.executeSend s).2 := by
  unfold executeSend
  split
  · rename_i cause he
    have he : m.event s = .error cause := he
    exact .refused hi (.note (NoteOf.event he))
  · rename_i e he
    have he : m.event s = .ok e := he
    exact .sent hi (NoteOf.event he)

theorem stepped_loose {s : LooseSend} (hi : m.instruction? = some (.looseSend s)) :
    Stepped m (m.fetched.executeLoose s).1 (m.fetched.executeLoose s).2 := by
  unfold executeLoose
  split
  · rename_i cause he
    exact .refused hi (.note (NoteOf.looseEvent he))
  · rename_i o he
    exact .broken hi (NoteOf.looseEvent he)
  · rename_i e he
    exact .sent hi (NoteOf.looseEvent he)

theorem stepped_wait {w : Wait} (hi : m.instruction? = some (.wait w)) :
    Stepped m (m.fetched.executeWait w).1 (m.fetched.executeWait w).2 := by
  unfold executeWait
  by_cases hw : w.amount < 0
  · rw [if_pos hw]
    exact .refused hi (.negativeWait hw)
  · rw [if_neg hw]
    split
    · rename_i c due hc
      exact .waited hi (by omega) hc
    · rename_i c o hc
      exact .waitOverflow hi (by omega) hc
    · rename_i c f hc
      rcases Clock.advanceWait_fault hc with ⟨o, ho⟩ | ⟨rfl, -⟩
      · cases ho
      · exact .refused hi (.wait (by omega) hc)
    · rename_i c f hc
      rcases Clock.advanceWait_fault hc with ⟨o, ho⟩ | ⟨-, f, hf⟩
      · cases ho
      · cases hf

theorem stepped_tempo {t : Tempo} (hi : m.instruction? = some (.tempo t)) :
    Stepped m (m.fetched.executeTempo t).1 (m.fetched.executeTempo t).2 := by
  unfold executeTempo
  split
  · rename_i c hc
    exact .tempoSet hi hc
  · rename_i c o hc
    exact .tempoOverflow hi hc
  · rename_i c f hc
    rcases Clock.setTempo_fault hc with ⟨o, ho⟩ | ⟨rfl, -⟩
    · cases ho
    · exact .refused hi (.tempo hc)
  · rename_i c f hc
    rcases Clock.setTempo_fault hc with ⟨o, ho⟩ | ⟨-, f, hf⟩
    · cases ho
    · cases hf

theorem stepped_jump {j : Jump} (hi : m.instruction? = some (.jump j)) :
    Stepped m (m.fetched.executeJump j).1 (m.fetched.executeJump j).2 := by
  unfold executeJump
  split
  · rename_i ht
    rw [← ht]
    exact .refused hi (.target fun t h => by rw [ht] at h; cases h)
  · rename_i t ht
    by_cases hr : 0 ≤ t ∧ t ≤ m.fetched.program.length
    · rw [if_neg (not_not_intro hr)]
      split
      · rename_i cause hc
        exact .refused hi (.counter hc)
      · rename_i cs taken hc
        exact .jumped hi ht hr hc
    · rw [if_pos hr, ← ht]
      exact .refused hi (.target fun t' h => by rw [ht] at h; cases h; exact hr)

end

/-- **Everything a step can do.** -/
theorem stepped (m : Machine) : Stepped m m.step.1 m.step.2 := by
  unfold step
  by_cases hf : m.isFinished = true
  · rw [if_pos hf]
    exact .finished hf
  · rw [if_neg hf]
    have hf : m.isFinished = false := by simpa using hf
    dsimp only
    by_cases hend : m.ip = m.program.length
    · rw [if_pos hend]
      exact .ended hf hend
    · rw [if_neg hend]
      cases hs : m.program.at? m.ip with
      | none => exact .lost hf hend hs
      | some s =>
        have hi : m.instruction? = some s := by
          unfold instruction?
          rw [hf, hs]
          rfl
        cases s with
        | send s => exact stepped_send hi
        | looseSend s => exact stepped_loose hi
        | wait w => exact stepped_wait hi
        | jump j => exact stepped_jump hi
        | tempo t => exact stepped_tempo hi
        | _ => exact .refused hi (.unknown (fun _ hs => nomatch hs) (by simp) (by simp) (by simp))

/-! ## Runs -/

/-- What a machine can be told to do. -/
inductive Move where
  | step
  | cancel
  | reset
  deriving DecidableEq

def move (m : Machine) : Move → Machine
  | .step => m.step.1
  | .cancel => m.cancel
  | .reset => m.reset

def after (m : Machine) (moves : List Move) : Machine := moves.foldl move m

theorem after_append (m : Machine) (moves later : List Move) :
    m.after (moves ++ later) = (m.after moves).after later := List.foldl_append

/-- What every move keeps holds after every run. -/
theorem after_induct {P : Machine → Prop} (hmove : ∀ m a, P m → P (m.move a)) {m : Machine}
    (hm : P m) (moves : List Move) : P (m.after moves) := by
  induction moves generalizing m with
  | nil => exact hm
  | cons a rest ih => exact ih (hmove m a hm)

theorem Stepped.program {m m' : Machine} {out : Step} (h : Stepped m m' out) :
    m'.program = m.program := by
  cases h <;> rfl

theorem cancel_program (m : Machine) : m.cancel.program = m.program := by
  unfold cancel
  split <;> rfl

theorem after_program (m : Machine) (moves : List Move) :
    (m.after moves).program = m.program := by
  refine after_induct (P := fun m' => m'.program = m.program) (fun m' a h => ?_) rfl moves
  cases a with
  | step => exact m'.stepped.program.trans h
  | cancel => exact (cancel_program m').trans h
  | reset => exact h

def steps (m : Machine) (n : Nat) : Machine := m.after (List.replicate n .step)

@[simp] theorem steps_zero (m : Machine) : m.steps 0 = m := rfl

@[simp] theorem steps_succ (m : Machine) (n : Nat) : m.steps (n + 1) = m.step.1.steps n := rfl

theorem steps_add (m : Machine) (n k : Nat) : m.steps (n + k) = (m.steps n).steps k := by
  rw [steps, ← List.replicate_append_replicate, after_append]
  rfl

def trace (m : Machine) : Nat → List Statement
  | 0 => []
  | n + 1 => m.instruction?.toList ++ m.step.1.trace n

theorem trace_add (m : Machine) (n k : Nat) :
    m.trace (n + k) = m.trace n ++ (m.steps n).trace k := by
  induction n generalizing m with
  | zero => simp [trace]
  | succ n ih => rw [Nat.add_right_comm, trace, trace, ih, steps_succ, List.append_assoc]

theorem steps_of_finished {m : Machine} (h : m.isFinished = true) (n : Nat) : m.steps n = m := by
  induction n with
  | zero => rfl
  | succ n ih =>
    have hstep : m.step.1 = m := by rw [step, if_pos h]
    rw [steps_succ, hstep, ih]

end Machine

end Ostinato
