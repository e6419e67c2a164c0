import Ostinato.Midi.File
import Ostinato.Run

/-!
# Offline rendering

A render runs a program without waiting and collects its events, up to the first limit reached.
With a router the events are dispatched too, only delivered ones are collected, and the notes of a
render that stops early are released.
-/

namespace Ostinato

/-- A bound on seconds, kept as it was given: a whole number or a binary64 one. -/
inductive SecondsBound where
  | whole (n : Int)
  | real (x : Binary64)
  deriving Repr, DecidableEq

namespace SecondsBound

/-- Whether a time is at or past the bound. Whole numbers are compared exactly. -/
def reached (b : SecondsBound) (time : Binary64) : Bool :=
  match b, time with
  | real x, t => x.le t
  | whole _, .nan _ => false
  | whole _, .inf s => !s
  | whole n, .fin s mag =>
    let v : Int := if s then -(mag : Int) else mag
    n * Binary64.one ≤ v

def text : SecondsBound → String
  | whole n => toString n
  | real x => x.text

end SecondsBound

structure Limits where
  maxSeconds : Option SecondsBound := some (.real (.ofDecimal false 3600 0))
  maxTicks : Option Int := none
  maxEvents : Option Int := none
  maxSteps : Option Int := some 1000000
  deriving Repr

inductive RenderFault where
  | noLimit
  | overflow (fault : Overflow)
  /-- No limit on steps was given and the render was not over after the steps it was allowed. -/
  | unfinished
  deriving Repr, DecidableEq

def RenderFault.message : RenderFault → String
  | noLimit =>
    "render() requires at least one limit: provide max_seconds=, max_ticks=, max_events= or " ++
      "max_steps=. Passing all as None could produce an infinite render."
  | overflow f => f.message
  | unfinished => "render did not end"

structure Rendering where
  events : List Event
  result : RunResult
  timeSignature : SettingValue

namespace Limits

def isUnlimited (l : Limits) : Bool :=
  l.maxSeconds.isNone && l.maxTicks.isNone && l.maxEvents.isNone && l.maxSteps.isNone

/-- The reason to stop at a time and tick, if a limit is reached. -/
def timeReason? (l : Limits) (time : Binary64) (tick : Int) : Option String :=
  match l.maxSeconds, l.maxTicks with
  | some s, some t =>
    if s.reached time then some ("max_seconds limit (" ++ s.text ++ "s) reached")
    else if t ≤ tick then some ("max_ticks limit (" ++ toString t ++ ") reached")
    else none
  | some s, none =>
    if s.reached time then some ("max_seconds limit (" ++ s.text ++ "s) reached") else none
  | none, some t =>
    if t ≤ tick then some ("max_ticks limit (" ++ toString t ++ ") reached") else none
  | none, none => none

def eventsReason? (l : Limits) (count : Nat) : Option String :=
  match l.maxEvents with
  | some n => if n ≤ count then some ("max_events limit (" ++ toString n ++ ") reached") else none
  | none => none

def stepsReached? (l : Limits) (executed : Nat) : Option Int :=
  match l.maxSteps with
  | some n => if n ≤ executed then some n else none
  | none => none

end Limits

namespace Render

structure Request where
  limits : Limits
  router : Option Router := none
  /-- Whether the render is found cancelled at its n-th check, counted from zero. -/
  cancelled : Option (Nat → Bool) := none

/-- A render under way. -/
structure State where
  machine : Machine
  rig : Rig
  events : Array Event := #[]
  errors : Array OutputFault := #[]
  sounding : Sounding := {}
  reason : String := ""
  checks : Nat := 0

inductive Verdict where
  | more
  | over
  | overflow (fault : Overflow)

def State.stop (s : State) (reason : String) : State :=
  { s with
    reason := reason
    rig := { s.rig with journal := s.machine.reportCancel s.rig.journal }
    machine := s.machine.cancel }

/-- Collects an event, through the router if there is one. -/
def State.collect (s : State) (router : Option Router) (e : Event) : State :=
  match router with
  | none => { s with events := s.events.push e }
  | some r =>
    match Run.deliver r s.rig e with
    | (rig, none) =>
      { s with rig := rig, events := s.events.push e, sounding := s.sounding.track e }
    | (rig, some fault) => { s with rig := rig, errors := s.errors.push fault }

/-- What a render does with the outcome of a step. -/
def State.after (s : State) (q : Request) : Step → State × Verdict
  | .emit e =>
    match q.limits.timeReason? e.time e.tick with
    | some reason => (s.stop reason, .over)
    | none =>
      let s := s.collect q.router e
      match q.limits.eventsReason? s.events.size with
      | some reason => (s.stop reason, .more)
      | none => (s, .more)
  | .suspend .. =>
    match q.limits.timeReason? s.machine.clock.now s.machine.clock.ticks with
    | some reason => (s.stop reason, .more)
    | none => (s, .more)
  | .fault _ => (s, .over)
  | .overflow o => (s, .overflow o)
  | .halt _ => (s, .more)
  | .proceed _ => (s, .more)

def isCancelled (q : Request) (check : Nat) : Bool :=
  match q.cancelled with
  | some f => f check
  | none => false

/-- Executes one instruction, unless the render is cancelled or out of steps. -/
def turn (q : Request) (s : State) : State × Verdict :=
  let cancelled := isCancelled q s.checks
  let s := { s with checks := s.checks + 1 }
  if cancelled then (s.stop "cancelled", .over)
  else
    match q.limits.stepsReached? s.machine.executed with
    | some n =>
      let s := { s with rig := s.rig.report .warning .player fun _ =>
        "Render stopped at the " ++ toString n ++ "-instruction safety limit" }
      (s.stop ("max_steps limit (" ++ toString n ++ ") reached"), .over)
    | none =>
      let outcome := s.machine.step
      let s := { s with
        rig := { s.rig with journal := s.machine.reportStep outcome s.rig.journal }
        machine := outcome.1 }
      s.after q outcome.2

/-- Takes turns until the render is over. -/
def turns (q : Request) : Nat → State → State × Verdict
  | 0, s => (s, .more)
  | fuel + 1, s =>
    if s.machine.isFinished then (s, .over)
    else
      match turn q s with
      | (s, .more) => turns q fuel s
      | ended => ended

/-- How many turns a render can need. Without a limit on steps it is given `patience`. -/
def turnBound (l : Limits) (patience : Nat) : Nat :=
  match l.maxSteps with
  | some n => n.toNat + 2
  | none => patience

/-- Ends a render: notes left sounding are released, unless the program halted. -/
def State.finish (s : State) (q : Request) (p : Program) : Rig × Rendering :=
  let rig := match q.router with
    | some r => if s.machine.state = RunState.halted then s.rig
      else Run.release r s.rig s.sounding s.machine
    | none => s.rig
  let result := Run.result s.machine s.events.size s.errors.toList s.reason
  let rig := rig.report .info .player fun _ =>
    "Rendered " ++ toString s.events.size ++ " events in " ++ result.seconds.fixed 3 ++
      "s of virtual time (" ++ result.state.name ++ ")"
  (rig, { events := s.events.toList, result := result, timeSignature := p.timeSignature })

end Render

def render (p : Program) (q : Render.Request) (rig : Rig) (patience : Nat) :
    Rig × Except RenderFault Rendering :=
  if q.limits.isUnlimited then (rig, .error .noLimit)
  else
    let rig := { rig with journal := Machine.reportLoad rig.journal }
    match Render.turns q (Render.turnBound q.limits patience)
        { machine := Machine.load p, rig := rig } with
    | (s, .overflow o) => (s.rig, .error (.overflow o))
    | (s, .more) => (s.rig, .error .unfinished)
    | (s, .over) =>
      let (rig, rendering) := s.finish q p
      (rig, .ok rendering)

def Rendering.track (r : Rendering) : Except Midi.MidiFault Midi.Track :=
  match r.timeSignature with
  | .absent => Midi.track r.events none
  | .pair n d => Midi.track r.events (some (n, d))
  | _ => .error .signatureKind

/-- Renders programs one after the other under the same limits, up to the first that fails. -/
def renderTracks (limits : Limits) (rig : Rig) (patience : Nat) :
    List Program → Rig × Except RenderFault (List Rendering)
  | [] => (rig, .ok [])
  | p :: rest =>
    match render p { limits := limits } rig patience with
    | (rig, .error e) => (rig, .error e)
    | (rig, .ok r) =>
      match renderTracks limits rig patience rest with
      | (rig, .error e) => (rig, .error e)
      | (rig, .ok rs) => (rig, .ok (r :: rs))

/-- Interleaves the events of several tracks by time. Events of one time stand in track order, and
each track keeps its own order. -/
def mergeEvents (tracks : List (List Event)) : List (Nat × Event) :=
  let streams := tracks.zipIdx.map fun (events, track) => events.map fun e => (track, e)
  streams.foldl (fun merged s => merged.merge s fun a b => !b.2.time.lt a.2.time) []

end Ostinato
