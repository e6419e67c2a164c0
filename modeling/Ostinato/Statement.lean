import Ostinato.Binary64
import Ostinato.Pitch

/-!
# Statements

A program is a tree of statements. Four of them are what the machine executes: tempo changes,
notes, waits and jumps. Labels and loops are blocks, press lines sound whole chords, and settings
belong to the program's header; linking replaces these by the former.

Statements written by hand may hold any numbers and names, so fields are not bounded here: the
reader of source text bounds what it reads, and the machine checks what it executes.
-/

namespace Ostinato

/-- Where a statement stands in its source, both counted from one. Statements built by hand are at
zero. -/
structure Pos where
  line : Int := 0
  column : Int := 0
  deriving Repr, DecidableEq

/-! ## Time units -/

/-- What a wait is measured in: musical time, clock time, or a unit that nothing defines. -/
inductive TimeUnit where
  | ticks
  | beats
  | minutes
  | seconds
  | milliseconds
  | microseconds
  | nanoseconds
  | unknown (name : String)
  deriving Repr, DecidableEq

namespace TimeUnit

def name : TimeUnit → String
  | ticks => "ticks"
  | beats => "beats"
  | minutes => "minutes"
  | seconds => "seconds"
  | milliseconds => "milliseconds"
  | microseconds => "microseconds"
  | nanoseconds => "nanoseconds"
  | unknown n => n

def ofName (n : String) : TimeUnit :=
  match n with
  | "ticks" => ticks
  | "beats" => beats
  | "minutes" => minutes
  | "seconds" => seconds
  | "milliseconds" => milliseconds
  | "microseconds" => microseconds
  | "nanoseconds" => nanoseconds
  | other => unknown other

/-- The unit that a word of source text selects; the word is in small letters. -/
def ofWord? (word : String) : Option TimeUnit :=
  match word with
  | "ticks" | "tick" | "t" => some ticks
  | "beats" | "beat" | "b" => some beats
  | "minutes" | "mins" | "m" => some minutes
  | "seconds" | "secs" | "s" => some seconds
  | "milliseconds" | "millis" | "ms" => some milliseconds
  | "microseconds" | "micros" | "us" => some microseconds
  | "nanoseconds" | "nanos" | "ns" => some nanoseconds
  | _ => none

def minuteSeconds : Binary64 := .ofDecimal false 60 0
def secondSeconds : Binary64 := .ofDecimal false 1 0
def milliSeconds : Binary64 := .ofDecimal false 1 (-3)
def microSeconds : Binary64 := .ofDecimal false 1 (-6)
def nanoSeconds : Binary64 := .ofDecimal false 1 (-9)

def clockSeconds? : TimeUnit → Option Binary64
  | minutes => some minuteSeconds
  | seconds => some secondSeconds
  | milliseconds => some milliSeconds
  | microseconds => some microSeconds
  | nanoseconds => some nanoSeconds
  | _ => none

end TimeUnit

/-! ## Instructions -/

structure Tempo where
  bpm : Int
  ticksPerBeat : Int
  pos : Pos := {}
  deriving Repr, DecidableEq

/-- Turns a note on or off. Channels count from zero; no output means the default one. -/
structure Send where
  on : Bool
  channel : Int
  pitch : Int
  velocity : Int
  output : Option String := none
  pos : Pos := {}
  deriving Repr, DecidableEq

/-- Lets virtual time pass. -/
structure Wait where
  amount : Int
  unit : TimeUnit := .ticks
  pos : Pos := {}
  deriving Repr, DecidableEq

/-- Goes to the start of a label. `count` bounds how often the jump is taken, and `target` is the
instruction it goes to once that is known. -/
structure Jump where
  label : String
  count : Option Int := none
  target : Option Int := none
  pos : Pos := {}
  deriving Repr, DecidableEq

/-! ## Settings -/

/-- The value of a header setting. -/
inductive SettingValue where
  | absent
  | number (n : Int)
  | name (s : String)
  | duration (w : Wait)
  | pair (a b : Int)
  deriving Repr, DecidableEq

def SettingValue.asNumber : SettingValue → Except Overflow Int
  | .number n => .ok n
  | .absent => .error (.notANumber "NoneType")
  | .name _ => .error (.notANumber "str")
  | .duration _ => .error (.notANumber "Wait")
  | .pair .. => .error (.notANumber "tuple")

/-- What a note is addressed to: a name, as a rule. A value of another kind names no output. -/
inductive OutputName where
  | name (s : String)
  | number (n : Int)
  | duration (w : Wait)
  | pair (a b : Int)
  deriving Repr, DecidableEq

instance : Coe String OutputName := ⟨.name⟩

def SettingValue.outputName? : SettingValue → Option OutputName
  | .absent => none
  | .name s => some s
  | .number n => some (.number n)
  | .duration w => some (.duration w)
  | .pair a b => some (.pair a b)

structure Setting where
  name : String
  value : SettingValue
  pos : Pos := {}
  deriving Repr, DecidableEq

/-- A note with values of any kind, as a setting made by hand can give it. It can be listed, and played
if its channel and velocity are numbers. -/
structure LooseSend where
  on : Bool
  channel : SettingValue
  pitch : Int
  velocity : SettingValue
  output : SettingValue
  pos : Pos := {}
  deriving Repr, DecidableEq

/-! ## The tree -/

/-- A press line: all notes of the chords sound together for the duration. What is left out comes
from the program's settings. -/
structure Play where
  chords : List Chord
  duration : Option Wait := none
  velocity : Option Int := none
  channel : Option Int := none
  output : Option String := none
  pos : Pos := {}
  deriving Repr, DecidableEq

/-- A statement. Labels and loops hold the statements of their bodies. -/
inductive Statement where
  | tempo (t : Tempo)
  | send (s : Send)
  | looseSend (s : LooseSend)
  | wait (w : Wait)
  | jump (j : Jump)
  | label (name : String) (body : List Statement) (pos : Pos)
  | loop (count : Option Int) (body : List Statement) (pos : Pos)
  | play (p : Play)
  | setting (s : Setting)
  deriving Repr

instance : Inhabited Statement := ⟨.wait { amount := 0 }⟩

def Statement.pos : Statement → Pos
  | tempo t => t.pos
  | send s => s.pos
  | looseSend s => s.pos
  | wait w => w.pos
  | jump j => j.pos
  | label _ _ p => p
  | loop _ _ p => p
  | play p => p.pos
  | setting s => s.pos

end Ostinato
