import Ostinato.Journal
import Ostinato.Yaml.Value

/-!
# MIDI devices

Which device an output is opened on. A device that is named has to be there; without a name the
only device is taken, or the user is asked to choose.
-/

namespace Ostinato

/-- The MIDI system: the devices that it reports, or why it does not, and what it says of a device
that it cannot open. -/
structure Backend where
  names : Except String (List String) := .ok []
  complaint : String → Option String := fun _ => none

namespace Backend

def outputNames (b : Backend) (j : Journal) : Journal × List String :=
  match b.names with
  | .ok names => (j, names)
  | .error why => (j.add .error .devices fun _ => "Failed to list MIDI outputs: " ++ why, [])

def listText (names : List String) : String :=
  "[" ++ String.intercalate ", " (names.map Text.quoted) ++ "]"

/-- The device that was opened, if one was, what was printed on the way, and the answers of the
user that are left. -/
structure Selection where
  device : Option String := none
  printed : String := ""
  answers : List String := []
  journal : Journal

def Selection.report (s : Selection) (level : Level) (text : Unit → String) : Selection :=
  { s with journal := s.journal.add level .devices text }

def openDevice (b : Backend) (s : Selection) (name : String) (text : Unit → String) : Selection :=
  match b.complaint name with
  | some why => s.report .error fun _ => "Failed to open MIDI output: " ++ why
  | none => { s with device := some name }.report .info text

/-! ## Asking -/

def menu (names : List String) : String :=
  "\nAvailable MIDI output devices:\n\n" ++
  String.join (names.zipIdx.map fun (name, i) =>
    "  " ++ toString (i + 1) ++ ". " ++ name ++ "\n") ++ "\n"

/-- Asks until a number of the list is given: what was printed, the position in the list, and the
answers left. If the answers run out there is no choice. -/
def ask (count : Nat) : List String → String × Option Nat × List String
  | [] => ("Select a device (1-" ++ toString count ++ "): ", none, [])
  | answer :: rest =>
    let question := "Select a device (1-" ++ toString count ++ "): "
    let again := fun (_ : Unit) =>
      let (printed, choice, left) := ask count rest
      (question ++ "Enter a number between 1 and " ++ toString count ++ ".\n" ++ printed, choice,
        left)
    match Text.integer? answer with
    | some n => if 1 ≤ n && n ≤ count then (question, some (n.toNat - 1), rest) else again ()
    | none => again ()

/-- How to be spared the question. -/
def tip (name : String) : String :=
  "\nTip: To skip this prompt, name the device in your config file:\n\n  outputs:\n" ++
  "    default: \x7bdevice: \"" ++ name ++ "\"\x7d\n\n"

/-- Lets the user choose a device. -/
def choose (b : Backend) (s : Selection) (names : List String) : Selection :=
  let (printed, choice, left) := ask names.length s.answers
  let s := { s with printed := s.printed ++ menu names ++ printed, answers := left }
  match choice.bind (names[·]?) with
  | none => s
  | some name =>
    let s := b.openDevice s name fun _ => "Opened MIDI output: " ++ name
    if s.device.isSome then { s with printed := s.printed ++ tip name } else s

/-! ## Selecting -/

/-- Opens the wanted device; null stands for any. -/
def select (b : Backend) (wanted : Yaml.Value) (interactive : Bool) (s : Selection) : Selection :=
  match b.names with
  | .error why => s.report .error fun _ => "Failed to open MIDI output: " ++ why
  | .ok names =>
    let s := s.report .info fun _ => "Available MIDI outputs: " ++ listText names
    match names, wanted with
    | [], _ => s.report .error fun _ => "No MIDI output devices found."
    | first :: rest, .null =>
      if rest.isEmpty || !interactive then
        b.openDevice s first fun _ => "Using MIDI output '" ++ first ++ "'"
      else b.choose s names
    | _, _ =>
      match names.find? fun n => Yaml.Value.sameKey (.text n) wanted with
      | some name => b.openDevice s name fun _ => "Opened MIDI output: " ++ name
      | none => s.report .error fun _ =>
        "MIDI output device '" ++ wanted.plain ++ "' not found. Available devices: " ++
          listText names

end Backend

end Ostinato
