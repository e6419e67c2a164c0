import Ostinato.Machine
import Ostinato.Router

/-!
# Runs

What offline and live runs have in common: how an event is delivered, how the notes of a run that
stops early are released, and what is told about a run at its end.
-/

namespace Ostinato

/-- How a run ended and how far it got. -/
structure RunResult where
  state : RunState
  executed : Nat
  ticks : Int
  seconds : Binary64
  emitted : Nat
  outputErrors : List OutputFault
  fault : Option Fault
  reason : String
  jumpCounts : Counters
  deriving Repr

namespace Run

/-- Dispatches an event of the program. A fault is reported, and the run goes on without the
note. -/
def deliver (router : Router) (rig : Rig) (e : Event) : Rig × Option OutputFault :=
  match router.dispatch rig e with
  | (rig, none) => (rig, none)
  | (rig, some fault) =>
    let what := fun _ => e.kindName ++ " " ++ toString e.pitch ++ " at instruction " ++
      toString e.index
    let rig := match fault with
      | .unknownOutput .. =>
        rig.report .warning .player fun _ => "Skipping " ++ what () ++ ": " ++ fault.message
      | _ => rig.report .error .player fun _ => "Send failed for " ++ what ()
    (rig, some fault)

/-- Dispatches a note-off. A fault is reported and prevents no other release. -/
def releaseOne (router : Router) (rig : Rig) (e : Event) : Rig :=
  match router.dispatch rig e with
  | (rig, none) => rig
  | (rig, some _) =>
    rig.report .error .player fun _ =>
      "Failed to release note " ++ toString e.pitch ++ " on channel " ++ toString e.channel

/-- Turns off the notes that a run left sounding, at the time its machine stopped. -/
def release (router : Router) (rig : Rig) (sounding : Sounding) (m : Machine) : Rig :=
  if sounding.isEmpty then rig
  else
    let rig := rig.report .info .player fun _ =>
      "Releasing " ++ toString sounding.notes.length ++ " sounding notes"
    (sounding.release m.clock.now m.clock.ticks).1.foldl (releaseOne router) rig

/-- What is told about a machine at the end of its run. A fault is the reason when no other is
given. -/
def result (m : Machine) (emitted : Nat) (errors : List OutputFault) (reason : String) :
    RunResult :=
  { state := m.state, executed := m.executed, ticks := m.clock.ticks, seconds := m.clock.now,
    emitted := emitted, outputErrors := errors, fault := m.fault,
    reason := match m.state, reason, m.fault with
      | .faulted, "", some f => f.message
      | _, reason, _ => reason
    jumpCounts := m.counters }

end Run

end Ostinato
