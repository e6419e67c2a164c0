import Ostinato.Binary64.Decimal
import Ostinato.Journal
import Ostinato.Statement

/-!
# The virtual clock

A tick lasts `60 / (bpm * ticksPerBeat)` seconds. Seconds are computed from the last anchor, as
`anchor + ticks since the anchor * tick duration`, and not summed wait by wait, so that a long run
at one tempo does not drift.

An operation gives the clock it leaves behind together with its outcome. A request that is refused
leaves the clock as it was; one that runs into a number too large for binary64 may leave some
fields already changed.
-/

namespace Ostinato

inductive AdvanceFault where
  | negativeTicks (ticks : Int)
  | negativeTime (seconds : Binary64)
  | unknownUnit (name : String)
  deriving Repr, DecidableEq

def AdvanceFault.message : AdvanceFault → String
  | negativeTicks n => "Negative tick advance (" ++ toString n ++ ")"
  | negativeTime s => "Negative time advance (" ++ s.text ++ "s)"
  | unknownUnit name => "Unknown wait unit " ++ Text.quoted name

inductive TempoFault where
  | beats
  | ticks
  deriving Repr, DecidableEq

def TempoFault.message : TempoFault → String
  | beats => "BPM must be positive"
  | ticks => "Ticks per beat must be positive"

inductive ClockFault where
  | tempo (fault : TempoFault)
  | advance (fault : AdvanceFault)
  | overflow (fault : Overflow)
  deriving Repr, DecidableEq

/-- Why an advance by whole seconds fails. Seconds below zero are reported as they were given. -/
inductive WholeFault where
  | negative (seconds : Int)
  | overflow (fault : Overflow)
  deriving Repr, DecidableEq

def WholeFault.message : WholeFault → String
  | negative n => "Negative time advance (" ++ toString n ++ "s)"
  | overflow f => f.message

/-- Tempo, elapsed time, and the anchor that elapsed seconds are computed from. -/
structure Clock where
  bpm : Int
  ticksPerBeat : Int
  ticks : Int
  now : Binary64
  tickDuration : Binary64
  anchor : Binary64
  ticksSinceAnchor : Int
  deriving Repr, DecidableEq

namespace Clock

def defaultBpm : Int := 120
def defaultTicksPerBeat : Int := 32

def minute : Binary64 := .ofDecimal false 60 0

/-- An advance gives the time at which it is due. -/
abbrev Outcome := Clock × Except ClockFault Binary64

def tickLength (bpm ticksPerBeat : Int) : Except Overflow Binary64 :=
  (Binary64.ofInt (bpm * ticksPerBeat)).map (minute / ·)

/-- Sets the tempo for all later advances. Time that has elapsed is not touched. -/
def setTempo (c : Clock) (bpm ticksPerBeat : Int) : Clock × Except ClockFault Unit :=
  if bpm ≤ 0 then (c, .error (.tempo .beats))
  else if ticksPerBeat ≤ 0 then (c, .error (.tempo .ticks))
  else
    let c := { c with
      anchor := c.now, ticksSinceAnchor := 0, bpm := bpm, ticksPerBeat := ticksPerBeat }
    match tickLength bpm ticksPerBeat with
    | .error o => (c, .error (.overflow o))
    | .ok d => ({ c with tickDuration := d }, .ok ())

/-- A clock at time zero, before its tempo is set. -/
def unset : Clock :=
  { bpm := defaultBpm, ticksPerBeat := defaultTicksPerBeat, ticks := 0, now := .zero,
    tickDuration := .zero, anchor := .zero, ticksSinceAnchor := 0 }

def start (bpm ticksPerBeat : Int) : Except ClockFault Clock :=
  match unset.setTempo bpm ticksPerBeat with
  | (c, .ok ()) => .ok c
  | (_, .error e) => .error e

def initial : Clock :=
  (unset.setTempo defaultBpm defaultTicksPerBeat).1

def advance (c : Clock) (ticks : Int) : Outcome :=
  if ticks < 0 then (c, .error (.advance (.negativeTicks ticks)))
  else
    let c := { c with ticksSinceAnchor := c.ticksSinceAnchor + ticks, ticks := c.ticks + ticks }
    match Binary64.ofInt c.ticksSinceAnchor with
    | .error o => (c, .error (.overflow o))
    | .ok n =>
      let due := c.anchor + n * c.tickDuration
      ({ c with now := due }, .ok due)

/-- Advances by a span of clock time. The tick count grows by the whole ticks that the span covers
at the current tempo. -/
def advanceSeconds (c : Clock) (seconds : Binary64) : Outcome :=
  if seconds.lt .zero then (c, .error (.advance (.negativeTime seconds)))
  else
    match (seconds / c.tickDuration).truncate with
    | .error o => (c, .error (.overflow o))
    | .ok whole =>
      let due := c.now + seconds
      ({ c with anchor := due, ticksSinceAnchor := 0, ticks := c.ticks + whole, now := due },
        .ok due)

/-- Advances by whole seconds, which are converted where they are computed with. -/
def advanceWhole (c : Clock) (seconds : Int) : Clock × Except WholeFault Binary64 :=
  if seconds < 0 then (c, .error (.negative seconds))
  else
    match Binary64.ofInt seconds with
    | .error o => (c, .error (.overflow o))
    | .ok span =>
      match (span / c.tickDuration).truncate with
      | .error o => (c, .error (.overflow o))
      | .ok whole =>
        let due := c.now + span
        ({ c with anchor := due, ticksSinceAnchor := 0, ticks := c.ticks + whole, now := due },
          .ok due)

def advanceWait (c : Clock) (amount : Int) (unit : TimeUnit) : Outcome :=
  match unit with
  | .ticks => c.advance amount
  | .beats => c.advance (amount * c.ticksPerBeat)
  | unit =>
    match unit.clockSeconds? with
    | none => (c, .error (.advance (.unknownUnit unit.name)))
    | some perUnit =>
      match Binary64.ofInt amount with
      | .error o => (c, .error (.overflow o))
      | .ok n => c.advanceSeconds (n * perUnit)

def reportTempo (c : Clock) (j : Journal) : Journal :=
  j.add .debug .clock fun _ =>
    "Tempo set to " ++ toString c.bpm ++ " BPM, " ++ toString c.ticksPerBeat ++
      " ticks per beat (" ++ c.tickDuration.fixed 6 ++ "s per tick)"

end Clock

end Ostinato
