import Ostinato.Live.Act
import Ostinato.Live.Timers

/-!
# The stage

Players and their runs in a virtual time in which computing takes none. Those who are ready act in
rounds, first come first served: whoever becomes ready during a round waits for a later one. A run
that waits comes back when its wait is due, or as soon as the signal that cancels it is raised.
Virtual time only moves on when nobody is ready.

Some news take a few rounds to reach the one they are for, so everybody who is ready carries the
number of rounds still to be sat out.

A run that waits has a lookout for the signal and a timer for its deadline. The lookout that sees
the signal takes leave, which is reported to the run. A run whose timer went off calls its lookout
back and goes on when that has taken leave.
-/

namespace Ostinato.Live

/-- Plays one program. `cancel` is the signal of its latest run, and `task` the run started in the
background. -/
structure Player where
  machine : Machine
  part : Part
  /-- Whether waits end early and the rest is spun away. -/
  spinWait : Bool := true
  running : Bool := false
  cancel : Option Nat := none
  task : Option Nat := none
  result : Option RunResult := none
  heard : Heard := {}

inductive PlayerFault where
  | yieldInterval
  deriving Repr, DecidableEq

def PlayerFault.message : PlayerFault → String
  | yieldInterval => "yield_interval must be positive"

def Player.create (p : Program) (router : Router) (listeners : List Listener) (spinWait : Bool)
    (yieldInterval : Int) : Except PlayerFault Player :=
  if yieldInterval ≤ 0 then .error .yieldInterval
  else .ok {
    machine := Machine.load p
    part := { router := router, listeners := listeners, yieldInterval := yieldInterval.toNat }
    spinWait := spinWait }

/-- What a run goes on with after its deferred listeners were told. -/
inductive Errand where
  | begin
  /-- So many instructions before the next yield. -/
  | proceed (left : Nat)
  | finish (result : RunResult)

/-- Where the lookout of a run stands. -/
inductive Lookout where
  | posted
  | watching
  /-- It saw the signal or was called back. -/
  | leaving
  | gone
  deriving Repr, DecidableEq

/-- A wait for a deadline. -/
structure Wait where
  deadline : Binary64
  lookout : Lookout := .posted
  /-- Whether the run has been told that the wait is over, by the timer or the lookout. -/
  told : Bool := false
  /-- Whether the run has called its lookout back. -/
  recalled : Bool := false
  deriving Repr, DecidableEq

inductive Phase where
  | fresh
  /-- Ready for so many instructions before the next yield. -/
  | active (left : Nat)
  | waiting (wait : Wait)
  /-- About to tell its deferred listeners. -/
  | telling (notice : Notice) (next : Errand)
  /-- About to hear how that went. -/
  | told (failure : Option String) (next : Errand)
  | ended (ending : Ending)

def Phase.ending? : Phase → Option Ending
  | ended e => some e
  | _ => none

def Phase.wait? : Phase → Option Wait
  | waiting w => some w
  | _ => none

/-- Whether a run in this phase is among its instructions, and so has notes to answer for. -/
def Phase.isPlaying : Phase → Bool
  | active _ | waiting _ | telling _ (.proceed _) | told _ (.proceed _) => true
  | _ => false

/-- A run of a player: the signal that cancels it, the time it began, and its own accounts. -/
structure Performance where
  player : Nat
  signal : Nat
  start : Binary64 := .zero
  phase : Phase := .fresh
  sounding : Sounding := {}
  emitted : Nat := 0
  errors : Array OutputFault := #[]

/-- Who can be ready to act. -/
inductive Thread where
  | run (i : Nat)
  /-- The lookout of a run. -/
  | lookout (i : Nat)
  /-- The news that the lookout of a run has taken leave. -/
  | leave (i : Nat)
  /-- The timer of a run that waits. -/
  | deadline (i : Nat)
  /-- Raises a signal. -/
  | raise (signal : Nat)
  /-- The caller, back from a sleep. -/
  | host
  deriving Repr, DecidableEq

structure Stage where
  rig : Rig
  now : Binary64 := .zero
  /-- Latest first. -/
  calls : List Call := []
  players : Array Player := #[]
  runs : Array Performance := #[]
  raised : List Nat := []
  signals : Nat := 0
  /-- Who is ready, after how many further rounds. -/
  ready : List (Nat × Thread) := []
  /-- How many of them belong to this round. -/
  left : Nat := 0
  /-- Who becomes ready at what time. -/
  timers : Timers Thread := #[]
  /-- The runs whose lookouts watch, in the order in which they began to. -/
  watched : List Nat := []
  hostAwake : Bool := false

namespace Stage

/-! ## Signals and timers -/

def newSignal (s : Stage) : Stage × Nat :=
  ({ s with signals := s.signals + 1 }, s.signals)

def isRaised (s : Stage) (signal : Nat) : Bool :=
  s.raised.contains signal

/-- Makes someone ready to act after so many further rounds. -/
def enqueue (s : Stage) (rounds : Nat) (t : Thread) : Stage :=
  { s with ready := s.ready ++ [(rounds, t)] }

def callAt (s : Stage) (time : Binary64) (t : Thread) : Stage :=
  { s with timers := s.timers.add time t }

def isCancelledBy (s : Stage) (signal i : Nat) : Bool :=
  (s.runs[i]?.map (·.signal == signal)).getD false

/-- The wait that a run is in. -/
def wait? (s : Stage) (i : Nat) : Option Wait :=
  s.runs[i]?.bind fun r => r.phase.wait?

/-- Whether a timer still counts. That of a run is withdrawn when the run goes on. -/
def isLive (s : Stage) : Thread → Bool
  | .deadline i => (s.wait? i).isSome
  | _ => true

def roundsAfterTimer : Thread → Nat
  | .host => 1
  | _ => 0

/-- The rounds that a run sits out while its deferred listeners get ready, and again while they
report back. -/
def roundsOfListeners : Nat := 1

def modifyRun (s : Stage) (i : Nat) (f : Performance → Performance) : Stage :=
  { s with runs := s.runs.modify i f }

def setPhase (s : Stage) (i : Nat) (phase : Phase) : Stage :=
  s.modifyRun i fun r => { r with phase := phase }

/-- Lets the lookout of a run take leave. -/
def relieve (s : Stage) (i : Nat) : Stage :=
  match s.wait? i with
  | some w => (s.setPhase i (.waiting { w with lookout := .leaving })).enqueue 0 (.lookout i)
  | none => s

def raise (s : Stage) (signal : Nat) : Stage :=
  let (seeing, others) := s.watched.partition (s.isCancelledBy signal)
  let s := { s with
    raised := if s.isRaised signal then s.raised else signal :: s.raised
    watched := others }
  seeing.foldl relieve s

def modifyPlayer (s : Stage) (i : Nat) (f : Player → Player) : Stage :=
  { s with players := s.players.modify i f }

/-- Moves time on, never back. -/
def moveTo (s : Stage) (t : Binary64) : Stage :=
  if s.now.lt t then { s with now := t } else s

/-- Drops the timers on top that no longer count. -/
def dropStale : Nat → Stage → Stage
  | 0, s => s
  | fuel + 1, s =>
    match s.timers.earliest? with
    | some (_, t) =>
      if s.isLive t then s else dropStale fuel { s with timers := s.timers.dropEarliest }
    | none => s

/-- Times that differ by less are not told apart. -/
def resolution : Binary64 := .ofDecimal false 1 (-9)

def isDue (s : Stage) (time : Binary64) : Bool :=
  time.le s.now || time.lt (s.now + resolution)

/-- Makes those ready whose time has come, the earliest first. -/
def wakeDue : Nat → Stage → Stage
  | 0, s => s
  | fuel + 1, s =>
    match s.timers.earliest? with
    | some (time, t) =>
      if s.isDue time then
        wakeDue fuel ({ s with timers := s.timers.dropEarliest }.enqueue (roundsAfterTimer t) t)
      else s
    | none => s

/-! ## Runs -/

/-- What a run of a player sees. -/
def act (s : Stage) (p : Player) (r : Performance) : Act :=
  { machine := p.machine, rig := s.rig, calls := s.calls, heard := p.heard
    cancelled := s.isRaised r.signal, current := p.cancel == some r.signal
    sounding := r.sounding, emitted := r.emitted, errors := r.errors }

/-- Raises the signal that cancels the latest run of a player. -/
def cancelPlayer (s : Stage) (p : Player) : Stage :=
  match p.cancel with
  | some signal => s.raise signal
  | none => s

/-- Takes over what a run did. If listeners asked its player to stop, the signal is raised. -/
def takeOver (s : Stage) (i : Nat) (r : Performance) (p : Player) (a : Act) : Stage :=
  let s := { s with rig := a.rig, calls := a.calls }
  let s := s.modifyPlayer r.player fun _ => { p with machine := a.machine, heard := a.heard }
  let s := s.modifyRun i fun _ =>
    { r with sounding := a.sounding, emitted := a.emitted, errors := a.errors }
  if a.asked then s.cancelPlayer p else s

def endRun (s : Stage) (i : Nat) (e : Ending) : Stage :=
  s.setPhase i (.ended e)

/-- Lets a run give way until its deferred listeners are to be told. -/
def defer (s : Stage) (i : Nat) (n : Notice) (next : Errand) : Stage :=
  (s.setPhase i (.telling n next)).enqueue roundsOfListeners (.run i)

/-- The length of the last part of a wait that can be spun away. -/
def spinThreshold : Binary64 := .ofDecimal false 1 (-3)

/-- What is left of a wait before the rest is spun away. -/
def coarse (p : Player) (remaining : Binary64) : Binary64 :=
  if p.spinWait && spinThreshold.lt remaining then remaining - spinThreshold else remaining

/-- Lets a run wait for a deadline. One that has passed is a mere yield. -/
def await (s : Stage) (i : Nat) (p : Player) (deadline : Binary64) : Stage :=
  let remaining := deadline - s.now
  if Binary64.zero.lt remaining then
    let s := s.callAt (s.now + coarse p remaining) (.deadline i)
    (s.setPhase i (.waiting { deadline := deadline })).enqueue 0 (.lookout i)
  else (s.setPhase i (.active p.part.yieldInterval)).enqueue 0 (.run i)

/-- Ends a run that failed among its instructions. -/
def failRun (s : Stage) (i : Nat) (r : Performance) (p : Player) (a : Act) (f : RunFault) : Stage :=
  let s := s.takeOver i r p (a.leave p.part)
  (s.modifyPlayer r.player fun p => { p with running := false }).endRun i (.error f)

/-- Carries a run to its next scheduling point or its end. -/
def continueRun (s : Stage) (i : Nat) (r : Performance) (p : Player) (left : Nat) : Stage :=
  let (a, pause) := (s.act p r).stretch p.part left
  match pause with
  | .yield =>
    ((s.takeOver i r p a).setPhase i (.active p.part.yieldInterval)).enqueue 0 (.run i)
  | .wait due => (s.takeOver i r p a).await i p (r.start + due)
  | .listen n left => (s.takeOver i r p a).defer i n (.proceed left)
  | .failed f => s.failRun i r p a f
  | .over =>
    let (a, result, failure) := a.conclude p.part
    let s := s.takeOver i r p a
    let s := s.modifyPlayer r.player fun p =>
      { p with running := false, result := some result }
    match failure with
    | some message => s.endRun i (.error (.listener message))
    | none =>
      if p.part.defers (.stop result) then s.defer i (.stop result) (.finish result)
      else s.endRun i (.ok result)

/-- Begins a run from the top. A listener that fails here leaves the player running. -/
def beginRun (s : Stage) (i : Nat) (r : Performance) (p : Player) : Stage :=
  let r := { r with start := s.now }
  let p := { p with running := true, cancel := some r.signal }
  let (a, failure) := (s.act p r).enter p.part
  let s := s.takeOver i r p a
  match failure with
  | some message => s.endRun i (.error (.listener message))
  | none =>
    if p.part.defers .start then s.defer i .start .begin
    else
      match s.runs[i]?, s.players[r.player]? with
      | some r, some p => s.continueRun i r p p.part.yieldInterval
      | _, _ => s

/-- Goes on after the deferred listeners were told. A run that is over answers with the player's
latest result, which is another run's if that one came to its end meanwhile. -/
def resumeRun (s : Stage) (i : Nat) (r : Performance) (p : Player) :
    Option String → Errand → Stage
  | none, .begin => s.continueRun i r p p.part.yieldInterval
  | none, .proceed left => s.continueRun i r p left
  | none, .finish result => s.endRun i (.ok (p.result.getD result))
  | some message, .proceed _ => s.failRun i r p (s.act p r) (.listener message)
  | some message, _ => s.endRun i (.error (.listener message))

/-! ## Waits -/

/-- Tells a run that its wait is over, once. -/
def tell (s : Stage) (i : Nat) : Stage :=
  match s.wait? i with
  | some w =>
    if w.told then s
    else (s.setPhase i (.waiting { w with told := true })).enqueue 0 (.run i)
  | none => s

/-- Lets the lookout of a run act: it begins to watch, unless the signal is there already or it was
called back meanwhile, or it goes. -/
def actLookout (s : Stage) (i : Nat) (r : Performance) (w : Wait) : Stage :=
  if w.lookout == .posted && !w.recalled && !s.isRaised r.signal then
    { s.setPhase i (.waiting { w with lookout := .watching }) with watched := s.watched ++ [i] }
  else (s.setPhase i (.waiting { w with lookout := .gone })).enqueue 0 (.leave i)

/-- Brings a run the news that its lookout has gone. -/
def actLeave (s : Stage) (i : Nat) (w : Wait) : Stage :=
  if w.recalled then s.enqueue 0 (.run i) else s.tell i

/-- Lets a run call its lookout back. One that watches has to take leave first. -/
def recallLookout (s : Stage) (i : Nat) (w : Wait) : Stage :=
  let s := s.setPhase i (.waiting { w with recalled := true })
  if w.lookout == .watching then { s with watched := s.watched.erase i }.relieve i else s

/-- Goes on after a wait. A run that spins is back at its deadline, unless it was cancelled. -/
def afterWait (s : Stage) (i : Nat) (r : Performance) (p : Player) (deadline : Binary64) : Stage :=
  let s := if p.spinWait && !s.isRaised r.signal then s.moveTo deadline else s
  s.continueRun i r p p.part.yieldInterval

/-- Lets a run act that was told that its wait is over, or that its lookout has gone. -/
def actWait (s : Stage) (i : Nat) (r : Performance) (p : Player) (w : Wait) : Stage :=
  if w.recalled || w.lookout == .gone then s.afterWait i r p w.deadline
  else s.recallLookout i w

def actRun (s : Stage) (i : Nat) : Stage :=
  match s.runs[i]? with
  | none => s
  | some r =>
    match s.players[r.player]? with
    | none => s
    | some p =>
      match r.phase with
      | .fresh => s.beginRun i r p
      | .active left => s.continueRun i r p left
      | .waiting w => s.actWait i r p w
      | .telling n next =>
        let (a, failure) := (s.act p r).tellDeferred p.part n
        ((s.takeOver i r p a).setPhase i (.told failure next)).enqueue roundsOfListeners (.run i)
      | .told failure next => s.resumeRun i r p failure next
      | .ended _ => s

/-- Lets someone act on behalf of a run that waits. -/
def actFor (s : Stage) (i : Nat) (f : Performance → Wait → Stage) : Stage :=
  match s.runs[i]?, s.wait? i with
  | some r, some w => f r w
  | _, _ => s

def actThread (s : Stage) : Thread → Stage
  | .run i => s.actRun i
  | .lookout i => s.actFor i (s.actLookout i)
  | .leave i => s.actFor i fun _ w => s.actLeave i w
  | .deadline i => s.tell i
  | .raise signal => s.raise signal
  | .host => { s with hostAwake := true }

/-- Begins a round of those who are ready. -/
def beginRound (s : Stage) : Stage :=
  let s := s.wakeDue s.timers.size
  { s with left := s.ready.length }

/-- The next round. Time moves on if nobody is ready, and nothing is left to do when there is no
timer either. -/
def nextRound (s : Stage) : Option Stage :=
  let s := s.dropStale s.timers.size
  match s.ready, s.timers.earliest? with
  | [], none => none
  | [], some (time, _) => some (s.moveTo time).beginRound
  | _ :: _, _ => some s.beginRound

/-- Lets the next one act, in this round or a new one. -/
def advance (s : Stage) : Option Stage :=
  match s.left, s.ready with
  | left + 1, (rounds, t) :: rest =>
    let s := { s with left := left, ready := rest }
    match rounds with
    | 0 => some (s.actThread t)
    | n + 1 => some (s.enqueue n t)
  | _, _ => s.nextRound

/-- Lets the next `n` act, unless nothing is left to do. -/
def advances : Nat → Stage → Stage
  | 0, s => s
  | n + 1, s =>
    match s.advance with
    | none => s
    | some s => advances n s

/-- Lets those act who belong to this round. -/
def endRound (s : Stage) : Stage :=
  advances s.left s

/-- Goes on until a condition holds, nothing is left to do or `fuel` is used up. -/
def goUntil (done : Stage → Bool) : Nat → Stage → Stage
  | 0, s => s
  | fuel + 1, s =>
    if done s then s
    else
      match s.advance with
      | none => s
      | some s => goUntil done fuel s

/-! ## What the caller can do -/

/-- How a run ended, once it has. -/
def ending? (s : Stage) (i : Nat) : Option Ending :=
  s.runs[i]?.bind fun r => r.phase.ending?

def hasEnded (i : Nat) (s : Stage) : Bool :=
  (s.ending? i).isSome

def hasFailed (i : Nat) (s : Stage) : Bool :=
  s.ending? i matches some (.error _)

def addRun (s : Stage) (player signal : Nat) : Stage × Nat :=
  ({ s with runs := s.runs.push { player := player, signal := signal } }, s.runs.size)

/-- How a run is to be stopped from outside. -/
structure Cancellation where
  beforehand : Bool := false
  /-- Seconds after the run begins. -/
  after : Option Binary64 := none
  /-- At which yield. -/
  atYield : Option Nat := none

/-- Arranges for a signal to be raised at a time. -/
def raiseAfter (s : Stage) (signal : Nat) : Option Binary64 → Stage
  | none => s
  | some t => s.callAt (s.now + t) (.raise signal)

/-- Arranges for a signal to be raised after turns of everybody. -/
def raiseAtYield (s : Stage) (signal : Nat) : Option Nat → Stage
  | none => s
  | some k => s.enqueue (k - 1) (.raise signal)

def raiseIf (s : Stage) (signal : Nat) (b : Bool) : Stage :=
  if b then s.raise signal else s

/-- Runs a player to the end in the foreground. -/
def runPlayer (s : Stage) (player : Nat) (c : Cancellation) (fuel : Nat) :
    Stage × Option Ending :=
  let (s, signal) := s.newSignal
  let s := s.raiseIf signal c.beforehand
  let s := (s.raiseAfter signal c.after).raiseAtYield signal c.atYield
  let (s, i) := s.addRun player signal
  let s := (s.actRun i).goUntil (hasEnded i) fuel
  (s, s.ending? i)

/-- Starts a player in the background, unless it is running. -/
def startPlayer (s : Stage) (player : Nat) : Stage :=
  match s.players[player]? with
  | none => s
  | some p =>
    if p.running then s
    else
      let (s, signal) := s.newSignal
      let (s, i) := s.addRun player signal
      let s := s.modifyPlayer player fun p =>
        { p with running := true, cancel := some signal, task := some i }
      s.enqueue 0 (.run i)

/-- Goes on until the caller, who is due or about to be, is back. -/
def goUntilAwake (s : Stage) (fuel : Nat) : Stage :=
  { s with hostAwake := false }.goUntil (·.hostAwake) fuel

def sleep (s : Stage) (seconds : Binary64) (fuel : Nat) : Stage :=
  let s := if seconds.le .zero then s.enqueue 0 .host else s.callAt (s.now + seconds) .host
  s.goUntilAwake fuel

/-- Waits until a run has ended and the caller has learned of it. -/
def awaitRun (s : Stage) (i : Nat) (fuel : Nat) : Stage :=
  if hasEnded i s then s
  else ((s.goUntil (hasEnded i) fuel).enqueue 0 .host).goUntilAwake fuel

/-- Cancels a player and waits for its background run. -/
def stopPlayer (s : Stage) (player : Nat) (fuel : Nat) :
    Stage × Except RunFault (Option RunResult) :=
  match s.players[player]? with
  | none => (s, .ok none)
  | some p =>
    let s := s.cancelPlayer p
    let resultOf (s : Stage) := s.players[player]?.bind (·.result)
    match p.task with
    | none => (s, .ok (resultOf s))
    | some i =>
      let s := s.awaitRun i fuel
      match s.ending? i with
      | some (.error f) => (s, .error f)
      | _ =>
        let s := s.modifyPlayer player fun p => { p with task := none }
        (s, .ok (resultOf s))

/-- Dismisses a run that nobody awaits: one among its instructions is over, and what it left sounding
is released. -/
def dismissRun (s : Stage) (i : Nat) : Stage :=
  match s.runs[i]? with
  | none => s
  | some r =>
    match s.players[r.player]? with
    | none => s
    | some p =>
      if r.phase.isPlaying then
        (s.takeOver i r p ((s.act p r).leave p.part)).modifyPlayer r.player fun p =>
          { p with running := false }
      else s

/-- Stops the background run of a player. All others are dismissed after this round and one more. -/
def close (s : Stage) (player : Nat) (fuel : Nat) : Stage :=
  let s :=
    match s.players[player]?.bind (·.task) with
    | none => s
    | some _ => (s.stopPlayer player fuel).1
  let s := s.endRound.beginRound.endRound
  (List.range s.runs.size).foldl dismissRun s

/-- Adds a run for each of some players, all cancelled by one signal. -/
def addRuns (s : Stage) (signal : Nat) : List Nat → Stage × List Nat
  | [] => (s, [])
  | player :: rest =>
    let (s, i) := s.addRun player signal
    let s := s.enqueue 0 (.run i)
    let (s, is) := s.addRuns signal rest
    (s, i :: is)

/-- Runs all players side by side under one signal, to their ends or to the first failure. -/
def runAll (s : Stage) (c : Cancellation) (fuel : Nat) : Stage × List (Option Ending) :=
  let (s, signal) := s.newSignal
  let s := s.raiseIf signal c.beforehand
  let s := (s.raiseAfter signal c.after).raiseAtYield signal c.atYield
  let (s, is) := s.addRuns signal (List.range s.players.size)
  let s := s.goUntil (fun s => is.any (hasFailed · s) || is.all (hasEnded · s)) fuel
  (s, is.map s.ending?)

end Stage

end Ostinato.Live
