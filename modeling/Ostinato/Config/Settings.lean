import Ostinato.Journal
import Ostinato.Text.Upper
import Ostinato.Yaml.Document

/-!
# Configuration

A configuration is a mapping with a section for outputs, one for the player and one for logging.
A section that is missing, null or empty takes its defaults.
-/

namespace Ostinato.Config

open Yaml (Value)

inductive ConfigFault where
  | unreadable (fault : Yaml.Fault)
  | notAMapping (path kind : String)
  /-- A value of another kind stands where a mapping or a text is needed. -/
  | wrongKind
  /-- Bytes stand where a text is needed. -/
  | bytesForText
  | number (fault : Value.IntFault)
  | yieldInterval (n : Int)
  | unknownLevel (name : Value)
  | unknownOutputType (name type : Value)
  | deviceNotOpened (device : Value)

def ConfigFault.message : ConfigFault → String
  | unreadable f => f.message
  | notAMapping path kind =>
    "Config file " ++ path ++ " must contain a mapping, not " ++ kind
  | wrongKind => "a value of the wrong kind"
  | bytesForText => "bytes in place of a text"
  | number f => f.message
  | yieldInterval n => "player.yield_interval must be positive, got " ++ toString n
  | unknownLevel name => "Unknown logging level " ++ name.display
  | unknownOutputType name type =>
    "Output " ++ name.display ++ " has unknown type " ++ type.display ++
      " (expected midi, osc or null)"
  | deviceNotOpened device => "Could not open MIDI output " ++ device.display

/-! ## Loading -/

/-- The configuration in the text of a file. A file that is missing or empty is an empty one. -/
def load (path : String) (text : Option String) (j : Journal) :
    Journal × Except ConfigFault Value :=
  match text with
  | none =>
    (j.add .warning .config fun _ => "Config file " ++ path ++ " not found. Using defaults.",
      .ok (.map []))
  | some t =>
    match Yaml.read t with
    | .error f => (j, .error (.unreadable f))
    | .ok v =>
      match v.untie with
      | .null => (j, .ok (.map []))
      | .map _ => (j, .ok v)
      | _ => (j, .error (.notAMapping path v.kindName))

/-- The entries of a value that is a mapping, or none if it counts as false. -/
def entriesOf (v : Value) : Except ConfigFault (List (Value × Value)) :=
  match v.untie with
  | .map entries => .ok entries
  | v => if v.isTruthy then .error .wrongKind else .ok []

def sectionOf (config : Value) (name : String) : Except ConfigFault (List (Value × Value)) :=
  match config.untie with
  | .map entries => entriesOf ((Value.lookup entries name).getD .null)
  | _ => .error .wrongKind

/-! ## The player -/

/-- How a player waits and how often it gives way. -/
structure PlayerSettings where
  spinWait : Bool := true
  yieldInterval : Int := 64
  deriving Repr, DecidableEq

def playerSettings (config : Value) : Except ConfigFault PlayerSettings := do
  let entries ← sectionOf config "player"
  let spin := ((Value.lookup entries "spin_wait").map Value.isTruthy).getD true
  let interval ← match Value.lookup entries "yield_interval" with
    | none => .ok 64
    | some v => v.toInt.mapError .number
  if interval ≤ 0 then .error (.yieldInterval interval)
  else return { spinWait := spin, yieldInterval := interval }

/-! ## Logging -/

def severities : List (String × Int) := [
  ("CRITICAL", 50), ("FATAL", 50), ("ERROR", 40), ("WARNING", 30), ("WARN", 30), ("INFO", 20),
  ("DEBUG", 10), ("NOTSET", 0)]

def loggingLevel (config : Value) (default : Int) : Except ConfigFault Int := do
  let entries ← sectionOf config "logging"
  match (Value.lookup entries "level").getD .null with
  | .null => return default
  | name =>
    match severities.lookup (Text.upper name.plain) with
    | some n => return n
    | none => .error (.unknownLevel name)

end Ostinato.Config
