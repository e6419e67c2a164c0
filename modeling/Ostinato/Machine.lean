import Ostinato.Clock
import Ostinato.Event
import Ostinato.Program

/-!
# The machine

The machine executes a flat program one instruction at a time. It neither waits nor sends: a step
tells what happened, and whoever drives the machine acts on it.

A bounded jump counts how often it was taken. Once it has been taken as often as its bound says it
falls through until the machine is reset, however its label is reached again.
-/

namespace Ostinato

/-! ## Faults -/

/-- A violated invariant. It is fatal to the run. -/
inductive FaultCause where
  | pointerOutside
  | channel (value : Int)
  | pitch (value : Int)
  | velocity (value : Int)
  | negativeWait (amount : Int) (unit : TimeUnit)
  | advance (fault : AdvanceFault)
  | tempo (fault : TempoFault)
  | jumpTarget (target : Option Int)
  | noCounter
  | negativeCounter (count : Int)
  | unknownInstruction (text : String)
  deriving Repr, DecidableEq

def FaultCause.message : FaultCause → String
  | pointerOutside => "Instruction pointer out of range"
  | channel n => "Channel " ++ toString n ++ " out of range"
  | pitch n => "Pitch " ++ toString n ++ " out of range"
  | velocity n => "Velocity " ++ toString n ++ " out of range"
  | negativeWait n unit => "Negative wait (" ++ toString n ++ " " ++ unit.name ++ ")"
  | advance f => f.message
  | tempo f => f.message
  | jumpTarget t => "Jump target " ++ Describe.number t ++ " is outside the program"
  | noCounter => "Jump counter table has no entry for this site"
  | negativeCounter n => "Jump counter is negative (" ++ toString n ++ ")"
  | unknownInstruction text => "Unknown instruction " ++ text

/-- A cause with the instruction it arose at. What the clock refuses names no instruction. -/
structure Fault where
  cause : FaultCause
  index : Option Int
  deriving Repr, DecidableEq

def Fault.message (f : Fault) : String :=
  match f.index with
  | none => f.cause.message
  | some i => f.cause.message ++ " (at instruction " ++ toString i ++ ")"

/-! ## Jump counters -/

abbrev Counters := List (Int × Int)

namespace Counters

def put (cs : Counters) (index count : Int) : Counters :=
  match cs with
  | [] => [(index, count)]
  | (i, n) :: rest => if i = index then (i, count) :: rest else (i, n) :: put rest index count

def get? (cs : Counters) (index : Int) : Option Int :=
  cs.lookup index

def drop (cs : Counters) (index : Int) : Counters :=
  cs.filter fun e => e.1 ≠ index

/-- A zero for every jump site. -/
def start (sites : List JumpSite) : Counters :=
  sites.foldl (fun cs s => cs.put s.index 0) []

/-- The entries in order of their indices. -/
def sorted (cs : Counters) : List (Int × Int) :=
  cs.mergeSort fun a b => a.1 ≤ b.1

def take (cs : Counters) (index : Int) (bound : Option Int) :
    Except FaultCause (Counters × Bool) :=
  match cs.get? index with
  | none => .error .noCounter
  | some n =>
    if n < 0 then .error (.negativeCounter n)
    else
      let exhausted := match bound with
        | some b => decide (b ≤ n)
        | none => false
      if exhausted then .ok (cs, false) else .ok (cs.put index (n + 1), true)

end Counters

/-! ## States and steps -/

/-- The life of a run. -/
inductive RunState where
  | ready
  | running
  | halted
  | cancelled
  | faulted
  deriving Repr, DecidableEq

namespace RunState

def name : RunState → String
  | ready => "ready"
  | running => "running"
  | halted => "halted"
  | cancelled => "cancelled"
  | faulted => "faulted"

def isFinal : RunState → Bool
  | halted | cancelled | faulted => true
  | ready | running => false

end RunState

inductive Step where
  /-- A jump or tempo change, at the given time. -/
  | proceed (time : Binary64)
  | emit (event : Event)
  /-- A wait that is due at the given time and covers that many ticks. -/
  | suspend (due : Binary64) (ticks : Int)
  | halt (time : Binary64)
  | fault (fault : Fault)
  /-- A number too large for the clock, or a value that is none. The machine goes on running. -/
  | overflow (fault : Overflow)
  deriving Repr, DecidableEq

/-- A machine with its program. -/
structure Machine where
  program : Program
  ip : Int := 0
  state : RunState := .ready
  clock : Clock := Clock.initial
  counters : Counters
  executed : Nat := 0
  fault : Option Fault := none

namespace Machine

def load (p : Program) : Machine :=
  { program := p, counters := Counters.start p.jumpSites }

def reset (m : Machine) : Machine :=
  load m.program

def isFinished (m : Machine) : Bool :=
  m.state.isFinal

def cancel (m : Machine) : Machine :=
  if m.isFinished then m else { m with state := .cancelled }

/-! ## Execution -/

def event (m : Machine) (s : Send) : Except FaultCause Event :=
  if ¬(0 ≤ s.channel ∧ s.channel < channelCount) then .error (.channel s.channel)
  else if ¬(0 ≤ s.pitch ∧ s.pitch ≤ maxNote) then .error (.pitch s.pitch)
  else if ¬(0 ≤ s.velocity ∧ s.velocity ≤ maxVelocity) then .error (.velocity s.velocity)
  else .ok {
    time := m.clock.now, tick := m.clock.ticks, on := s.on, channel := s.channel,
    pitch := s.pitch, velocity := s.velocity, output := s.output.map .name, index := m.ip }

/-- The event of a note with values of any kind. They are looked at in turn, the velocity last, and one
that is no number cannot be compared with its bounds. The output may be anything. -/
def looseEvent (m : Machine) (s : LooseSend) : Except (FaultCause ⊕ Overflow) Event := do
  let channel ← s.channel.asNumber.mapError .inr
  let velocity := s.velocity.asNumber
  let e ← (m.event ⟨s.on, channel, s.pitch, velocity.toOption.getD 0, none, s.pos⟩).mapError .inl
  let _ ← velocity.mapError .inr
  .ok { e with output := s.output.outputName? }

def failAt (m : Machine) (cause : FaultCause) (index : Option Int) : Machine × Step :=
  let f : Fault := ⟨cause, index⟩
  ({ m with state := .faulted, fault := some f }, .fault f)

def next (m : Machine) : Machine :=
  { m with ip := m.ip + 1 }

def executeSend (m : Machine) (s : Send) : Machine × Step :=
  match m.event s with
  | .error cause => m.failAt cause (some m.ip)
  | .ok e => (m.next, .emit e)

def executeLoose (m : Machine) (s : LooseSend) : Machine × Step :=
  match m.looseEvent s with
  | .error (.inl cause) => m.failAt cause (some m.ip)
  | .error (.inr o) => (m, .overflow o)
  | .ok e => (m.next, .emit e)

def executeWait (m : Machine) (w : Wait) : Machine × Step :=
  if w.amount < 0 then m.failAt (.negativeWait w.amount w.unit) (some m.ip)
  else
    match m.clock.advanceWait w.amount w.unit with
    | (c, .ok due) => ({ m with clock := c }.next, .suspend due (c.ticks - m.clock.ticks))
    | (c, .error (.overflow o)) => ({ m with clock := c }, .overflow o)
    | (c, .error (.advance f)) => { m with clock := c }.failAt (.advance f) none
    | (c, .error (.tempo f)) => { m with clock := c }.failAt (.tempo f) (some m.ip)

def executeJump (m : Machine) (j : Jump) : Machine × Step :=
  match j.target with
  | none => m.failAt (.jumpTarget none) (some m.ip)
  | some target =>
    if ¬(0 ≤ target ∧ target ≤ m.program.length) then
      m.failAt (.jumpTarget (some target)) (some m.ip)
    else
      match m.counters.take m.ip j.count with
      | .error cause => m.failAt cause (some m.ip)
      | .ok (counters, taken) =>
        ({ m with counters := counters, ip := if taken then target else m.ip + 1 },
          .proceed m.clock.now)

def executeTempo (m : Machine) (t : Tempo) : Machine × Step :=
  match m.clock.setTempo t.bpm t.ticksPerBeat with
  | (c, .ok ()) => ({ m with clock := c }.next, .proceed c.now)
  | (c, .error (.overflow o)) => ({ m with clock := c }, .overflow o)
  | (c, .error (.tempo f)) => { m with clock := c }.failAt (.tempo f) (some m.ip)
  | (c, .error (.advance f)) => { m with clock := c }.failAt (.advance f) none

/-- Executes one instruction. -/
def execute (m : Machine) : Statement → Machine × Step
  | .send s => m.executeSend s
  | .looseSend s => m.executeLoose s
  | .wait w => m.executeWait w
  | .jump j => m.executeJump j
  | .tempo t => m.executeTempo t
  | s => m.failAt (.unknownInstruction (Describe.statement s)) (some m.ip)

/-- Executes the instruction at the instruction pointer. A finished machine stays as it is. -/
def step (m : Machine) : Machine × Step :=
  if m.isFinished then (m, .halt m.clock.now)
  else
    let m := { m with state := .running }
    if m.ip = m.program.length then ({ m with state := .halted }, .halt m.clock.now)
    else
      match m.program.at? m.ip with
      | none => m.failAt .pointerOutside (some m.ip)
      | some s => { m with executed := m.executed + 1 }.execute s

/-! ## Reports -/

def reportCancel (m : Machine) (j : Journal) : Journal :=
  if m.isFinished then j
  else j.add .info .machine fun _ =>
    "Machine cancelled at instruction " ++ toString m.ip ++ " after " ++ toString m.executed ++
      " steps"

/-- What a step reports, from the machine before it and its outcome. -/
def reportStep (before : Machine) (outcome : Machine × Step) (j : Journal) : Journal :=
  if before.isFinished then j
  else
    match outcome with
    | (after, .halt _) =>
      j.add .debug .machine fun _ =>
        "Program ended after " ++ toString after.executed ++ " instructions"
    | (_, .fault f) => j.add .error .machine fun _ => "Machine fault: " ++ f.message
    | (after, .proceed _) =>
      if j.keeps .debug then
        match before.program.at? before.ip with
        | some (.tempo _) => after.clock.reportTempo j
        | some (.jump jump) =>
          if before.counters == after.counters then
            j.add .debug .machine fun _ =>
              "Jump to " ++ Text.quoted jump.label ++ " at " ++ toString before.ip ++
                " exhausted after " ++ Describe.number jump.count ++ " repeats"
          else j
        | _ => j
      else j
    | _ => j

/-- What loading or resetting a machine reports: the tempo of its new clock. -/
def reportLoad (j : Journal) : Journal :=
  Clock.initial.reportTempo j

end Machine

end Ostinato
