import Ostinato.Machine

/-!
# Events in a window of time

The machine is run forward without waiting, and the events in a window `[start, stop)` of virtual
time are collected. Events before the window are executed and dropped.
-/

namespace Ostinato.Machine

structure Window where
  start : Binary64
  stop : Binary64
  /-- The most steps to run. -/
  maxSteps : Option Int := none
  /-- The most events to collect. -/
  take : Option Nat := none

/-- How a search ends: it is over, a step failed, or it was given up. -/
inductive WindowEnd where
  | done
  | fault (fault : Fault)
  | overflow (fault : Overflow)
  | unfinished
  deriving Repr, DecidableEq

/-- A search under way. -/
structure Search where
  machine : Machine
  journal : Journal
  steps : Nat := 0
  /-- Latest first. -/
  found : List Event := []

namespace Window

def holds (w : Window) (e : Event) : Bool :=
  w.start.le e.time && e.time.lt w.stop

def isFull (w : Window) (s : Search) : Bool :=
  match w.take with
  | some n => n ≤ s.found.length
  | none => false

def outOfSteps? (w : Window) (s : Search) : Option Int :=
  match w.maxSteps with
  | some n => if n ≤ s.steps then some n else none
  | none => none

/-- Runs the machine until the window is passed, at most `fuel` steps. -/
def run (w : Window) : Nat → Search → Search × WindowEnd
  | 0, s => (s, .unfinished)
  | fuel + 1, s =>
    if w.isFull s then (s, .done)
    else if s.machine.isFinished || !s.machine.clock.now.lt w.stop then (s, .done)
    else
      match w.outOfSteps? s with
      | some n =>
        ({ s with journal := s.journal.add .warning .machine fun _ =>
            "events_between stopped after " ++ toString n ++ " steps" }, .done)
      | none =>
        let outcome := s.machine.step
        let s := { s with
          machine := outcome.1, journal := s.machine.reportStep outcome s.journal,
          steps := s.steps + 1 }
        match outcome.2 with
        | .emit e => run w fuel (if w.holds e then { s with found := e :: s.found } else s)
        | .fault f => (s, .fault f)
        | .overflow o => (s, .overflow o)
        | _ => run w fuel s

end Window

def eventsIn (m : Machine) (j : Journal) (w : Window) (fuel : Nat) :
    Machine × Journal × List Event × WindowEnd :=
  let (s, e) := w.run fuel { machine := m, journal := j }
  (s.machine, s.journal, s.found.reverse, e)

end Ostinato.Machine
