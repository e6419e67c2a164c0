import Ostinato.Run

/-!
# A live run, from one scheduling point to the next

A live run executes instructions back to back and gives way to others at scheduling points: at
every wait, and after a number of instructions without one. Between two points nobody else acts, so
such a stretch is a function of what the run can see. It looks for a request to stop before every
instruction.

Listeners are told of the start and end of a run, of every note delivered and every one that was
not. Plain listeners are called on the spot. Deferred ones are called after them, and the run gives
way meanwhile. One that fails ends the run.
-/

namespace Ostinato.Live

/-! ## Listeners -/

inductive Notice where
  | start
  | note (event : Event)
  | outputError (fault : OutputFault)
  | stop (result : RunResult)

/-- The occasions that a listener can be registered for. -/
inductive Occasion where
  | start
  | note
  | outputError
  | stop
  /-- An occasion that never arises. -/
  | other (name : String)
  deriving Repr, DecidableEq

def Notice.occasion : Notice → Occasion
  | start => .start
  | note _ => .note
  | outputError _ => .outputError
  | stop _ => .stop

/-- What a listener does at one of its calls. -/
inductive Reaction where
  /-- Puts the notice on record. -/
  | record
  | fail (message : String)
  /-- Asks the player to stop. -/
  | ask
  | ignore

namespace Reaction

def failure? : Reaction → Option String
  | fail message => some message
  | _ => none

/-- Asks the player to stop at the n-th call, and never else. -/
def askAt (n : Nat) : Nat → Reaction := fun call => if call = n then ask else ignore

end Reaction

/-- How often listeners were called, by their ids. -/
structure Heard where
  counts : List (String × Nat) := []

namespace Heard

def count (h : Heard) (id : String) : Nat :=
  (h.counts.lookup id).getD 0

def add (h : Heard) (id : String) : Heard :=
  ⟨(id, h.count id + 1) :: h.counts.filter fun c => c.1 != id⟩

end Heard

/-- A listener. Deferred ones are called after all others. -/
structure Listener where
  id : String
  occasion : Occasion
  deferred : Bool := false
  /-- What it does at its first call, at its second and so on. -/
  reaction : Nat → Reaction := fun _ => .record

/-- What a listener does when it is called next. -/
def Listener.next (l : Listener) (h : Heard) : Reaction :=
  l.reaction (h.count l.id + 1)

structure Call where
  id : String
  notice : Notice

/-! ## What a run sees -/

/-- Why a run was left without a result. -/
inductive RunFault where
  | overflow (fault : Overflow)
  | listener (message : String)
  deriving Repr, DecidableEq

/-- What stays the same during a run. -/
structure Part where
  router : Router
  listeners : List Listener := []
  /-- The most instructions between two scheduling points. -/
  yieldInterval : Nat := 64

/-- The listeners, plain or deferred, that are to hear a notice. -/
def Part.audience (part : Part) (n : Notice) (deferred : Bool) : List Listener :=
  part.listeners.filter fun l => l.occasion = n.occasion && l.deferred == deferred

def Part.defers (part : Part) (n : Notice) : Bool :=
  !(part.audience n true).isEmpty

structure Act where
  machine : Machine
  rig : Rig
  /-- Latest first. -/
  calls : List Call := []
  heard : Heard := {}
  /-- Whether the run was asked to stop. -/
  cancelled : Bool := false
  /-- Whether this is the latest run of its player, which a listener's request is meant for. -/
  current : Bool := true
  /-- Whether a listener asked the player to stop. -/
  asked : Bool := false
  sounding : Sounding := {}
  emitted : Nat := 0
  errors : Array OutputFault := #[]

namespace Act

def call (a : Act) (l : Listener) (n : Notice) : Act × Option String :=
  let reaction := l.next a.heard
  let a := { a with heard := a.heard.add l.id }
  match reaction with
  | .record => ({ a with calls := ⟨l.id, n⟩ :: a.calls }, none)
  | .fail message => (a, some message)
  | .ask => ({ a with asked := true, cancelled := a.cancelled || a.current }, none)
  | .ignore => (a, none)

/-- Calls listeners in order, up to the first that fails. -/
def callUntilFailure (a : Act) (n : Notice) : List Listener → Act × Option String
  | [] => (a, none)
  | l :: rest =>
    match a.call l n with
    | (a, none) => callUntilFailure a n rest
    | (a, some message) => (a, some message)

/-- Calls listeners in order, all of them; the first failure counts. -/
def callAll (a : Act) (n : Notice) : List Listener → Act × Option String
  | [] => (a, none)
  | l :: rest =>
    let (a, first) := a.call l n
    let (a, later) := callAll a n rest
    (a, first.or later)

def tell (a : Act) (part : Part) (n : Notice) : Act × Option String :=
  a.callUntilFailure n (part.audience n false)

def tellDeferred (a : Act) (part : Part) (n : Notice) : Act × Option String :=
  a.callAll n (part.audience n true)

/-! ## One instruction -/

inductive Turn where
  | more
  /-- A wait, due at that virtual time. -/
  | wait (due : Binary64)
  /-- Deferred listeners are to be told. -/
  | listen (notice : Notice)
  | over
  | failed (fault : RunFault)

def report (a : Act) (part : Part) (n : Notice) : Act × Turn :=
  match a.tell part n with
  | (a, none) => (a, if part.defers n then .listen n else .more)
  | (a, some message) => (a, .failed (.listener message))

def perform (a : Act) (part : Part) (e : Event) : Act × Turn :=
  match Run.deliver part.router a.rig e with
  | (rig, none) =>
    { a with rig := rig, emitted := a.emitted + 1, sounding := a.sounding.track e }.report part
      (.note e)
  | (rig, some f) =>
    { a with rig := rig, errors := a.errors.push f }.report part (.outputError f)

def cancel (a : Act) : Act :=
  { a with
    rig := { a.rig with journal := a.machine.reportCancel a.rig.journal }
    machine := a.machine.cancel }

/-- Executes one instruction, unless the run was asked to stop. -/
def turn (a : Act) (part : Part) : Act × Turn :=
  if a.cancelled then (a.cancel, .over)
  else
    let outcome := a.machine.step
    let a := { a with
      rig := { a.rig with journal := a.machine.reportStep outcome a.rig.journal }
      machine := outcome.1 }
    match outcome.2 with
    | .emit e => a.perform part e
    | .suspend due _ => (a, .wait due)
    | .proceed _ => (a, .more)
    | .halt _ => (a, .over)
    | .fault _ => (a, .over)
    | .overflow o => (a, .failed (.overflow o))

/-! ## Stretches -/

/-- Why a run gives way. -/
inductive Pause where
  /-- It has executed as many instructions as it may without a wait. -/
  | yield
  | wait (due : Binary64)
  /-- Deferred listeners are to be told, `left` instructions before the next yield. -/
  | listen (notice : Notice) (left : Nat)
  | over
  | failed (fault : RunFault)

/-- Executes up to `n` instructions, to the next scheduling point or the end. -/
def stretch (part : Part) : Nat → Act → Act × Pause
  | 0, a => (a, .yield)
  | n + 1, a =>
    match a.turn part with
    | (a, .more) => stretch part n a
    | (a, .wait due) => (a, .wait due)
    | (a, .listen notice) => (a, .listen notice n)
    | (a, .over) => (a, .over)
    | (a, .failed f) => (a, .failed f)

/-- Starts from the top: the machine is reset and the plain listeners are told. -/
def enter (a : Act) (part : Part) : Act × Option String :=
  let p := a.machine.program
  let name := match p.sourceName with
    | none | some "" => "program"
    | some n => n
  let rig := { a.rig with journal := Machine.reportLoad a.rig.journal }
  let rig := rig.report .info .player fun _ =>
    "Playing " ++ name ++ " (" ++ toString p.length ++ " instructions)"
  let a := { a with
    machine := a.machine.reset, rig := rig, sounding := {}, emitted := 0, errors := #[] }
  a.tell part .start

/-- Turns off what still sounds, unless the program halted. -/
def leave (a : Act) (part : Part) : Act :=
  if a.machine.state = .halted then a
  else { a with rig := Run.release part.router a.rig a.sounding a.machine, sounding := {} }

/-- Ends a run that is over: its notes are released, its result is drawn up and the plain listeners
are told. -/
def conclude (a : Act) (part : Part) : Act × RunResult × Option String :=
  let a := a.leave part
  let r := Run.result a.machine a.emitted a.errors.toList ""
  let text := fun (_ : Unit) => "Playback " ++ r.state.name ++ " after " ++ toString r.executed ++
    " instructions, " ++ toString r.ticks ++ " ticks (" ++ r.seconds.fixed 3 ++ "s)"
  let a := { a with rig := a.rig.report .info .player text }
  let (a, failure) := a.tell part (.stop r)
  (a, r, failure)

end Act

/-! ## A run by itself -/

/-- How a run ends. -/
abbrev Ending := Except RunFault RunResult

/-- Whether the run is found cancelled after a pause, given what it has done so far. -/
abbrev Cue := Act → Act.Pause → Bool

/-- Tells the deferred listeners, unless a plain one has failed. -/
def Act.andDeferred (part : Part) (n : Notice) : Act × Option String → Act × Option String
  | (a, none) => a.tellDeferred part n
  | failed => failed

def finish (part : Part) (a : Act) : Act × Ending :=
  let (a, r, failure) := a.conclude part
  match Act.andDeferred part (.stop r) (a, failure) with
  | (a, none) => (a, .ok r)
  | (a, some message) => (a, .error (.listener message))

/-- Goes from pause to pause until the run is over, at most `fuel` times; `left` instructions may
be executed before the first. -/
def playFrom (part : Part) (cue : Cue) : Nat → Nat → Act → Act × Option Ending
  | 0, _, a => (a, none)
  | fuel + 1, left, a =>
    match a.stretch part left with
    | (a, .failed f) => (a.leave part, some (.error f))
    | (a, .over) => (finish part a).map id some
    | (a, .listen notice left) =>
      match a.tellDeferred part notice with
      | (a, none) => playFrom part cue fuel left a
      | (a, some message) => (a.leave part, some (.error (.listener message)))
    | (a, pause) =>
      playFrom part cue fuel part.yieldInterval { a with cancelled := a.cancelled || cue a pause }

/-- Plays a program by itself, from the top, until it ends. -/
def play (part : Part) (cue : Cue) (fuel : Nat) (a : Act) : Act × Option Ending :=
  match Act.andDeferred part .start (a.enter part) with
  | (a, some message) => (a, some (.error (.listener message)))
  | (a, none) => playFrom part cue fuel part.yieldInterval a

/-- A run that nobody stops. -/
def noCue : Cue := fun _ _ => false

/-- An interruption that arrives at the n-th dispatch and is noticed at the next wait. -/
def interruptAt (n : Nat) : Cue := fun a pause =>
  match pause with
  | .wait _ => n ≤ a.emitted + a.errors.size
  | _ => false

/-- Reports that a program is played until it is interrupted. -/
def reportPlaying (rig : Rig) : Rig :=
  rig.report .info .player fun _ => "Playing program. Press Ctrl+C to stop."

end Ostinato.Live
