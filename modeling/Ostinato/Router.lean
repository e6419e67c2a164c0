import Ostinato.Journal
import Ostinato.Midi.Message
import Ostinato.Sounding
import Ostinato.Statement.Describe

/-!
# Outputs

A program addresses notes to named outputs or to the default one. A router binds the names to
sinks, which are kept in a store and known by their ids, so that several names, routers and runs
can share one. A name without a binding is found out when a note is sent to it.
-/

namespace Ostinato

/-! ## Sinks -/

inductive OutputFault where
  | unknownOutput (name : OutputName) (index : Option Int)
  /-- The transport behind the sink failed. -/
  | transport (message : String)
  | unsendable (fault : Midi.MidiFault)
  deriving Repr, DecidableEq

def OutputFault.message : OutputFault → String
  | unknownOutput name _ => "Unknown output " ++ Describe.outputName name
  | transport text => text
  | unsendable f => f.message

/-- A message over OSC: its address and the channel, pitch and velocity. -/
structure OscMessage where
  address : String
  channel : Int
  pitch : Int
  velocity : Int
  deriving Repr, DecidableEq

/-- Where notes go. -/
inductive Sink where
  /-- Discards everything. -/
  | null
  /-- Keeps what it is sent, save the sends, counted from zero, that fail. -/
  | recorder (fails : Nat → Bool) (complaint : String) (sends : Nat) (events : Array Event)
  /-- An open MIDI device. -/
  | device (name : Option String) (sent : Array Midi.Message) (closed : Nat)
  /-- OSC messages to addresses below `base`. -/
  | osc (base : String) (sent : Array OscMessage)

instance : Inhabited Sink := ⟨.null⟩

namespace Sink

def recording : Sink :=
  recorder (fun _ => false) "" 0 #[]

/-- A sink on an open device, with a name of its own or else the device's. -/
def onDevice (name deviceName : Option String) : Sink :=
  match name with
  | none | some "" => device deviceName #[] 0
  | some n => device (some n) #[] 0

/-- An address without the slashes at its end. -/
def addressBase (s : String) : String :=
  String.ofList (s.toList.reverse.dropWhile (· == '/')).reverse

/-- A sink for OSC messages to addresses below a base. -/
def overOsc (base : String) : Sink :=
  osc (addressBase base) #[]

def send (s : Sink) (e : Event) : Sink × Option OutputFault :=
  match s with
  | null => (null, none)
  | recorder fails complaint sends events =>
    if fails sends then (recorder fails complaint (sends + 1) events, some (.transport complaint))
    else (recorder fails complaint (sends + 1) (events.push e), none)
  | device name sent closed =>
    match Midi.Message.ofEvent e with
    | .ok m => (device name (sent.push m) closed, none)
    | .error f => (device name sent closed, some (.unsendable f))
  | osc base sent =>
    (osc base (sent.push ⟨base ++ "/" ++ e.kindName, e.channel, e.pitch, e.velocity⟩), none)

def silence : Sink → Sink
  | device name sent closed => device name (sent ++ Midi.silenceAll.toArray) closed
  | s => s

def close : Sink → Sink
  | device name sent closed => device name sent (closed + 1)
  | s => s

end Sink

/-! ## The store -/

abbrev Sinks := List (String × Sink)

namespace Sinks

def get? (sinks : Sinks) (id : String) : Option Sink :=
  sinks.lookup id

def put (sinks : Sinks) (id : String) (s : Sink) : Sinks :=
  match sinks with
  | [] => [(id, s)]
  | (k, t) :: rest => if k = id then (k, s) :: rest else (k, t) :: put rest id s

end Sinks

/-- What runs write to: the sinks and the journal. -/
structure Rig where
  sinks : Sinks := []
  journal : Journal := {}

def Rig.report (r : Rig) (level : Level) (origin : Origin) (text : Unit → String) : Rig :=
  { r with journal := r.journal.add level origin text }

/-! ## Routers -/

/-- Bindings of output names to sink ids, in the order they were made. Without a default sink,
notes for the default output are discarded. -/
structure Router where
  default : Option String := none
  outputs : List (String × String) := []
  deriving Repr, DecidableEq

namespace Router

def putOutput (outputs : List (String × String)) (name id : String) : List (String × String) :=
  match outputs with
  | [] => [(name, id)]
  | (n, i) :: rest => if n = name then (n, id) :: rest else (n, i) :: putOutput rest name id

/-- Binds a name; a name bound before keeps its place. -/
def bind (r : Router) (name id : String) : Router :=
  { r with outputs := putOutput r.outputs name id }

def ofBindings (default : Option String) (bindings : List (String × String)) : Router :=
  bindings.foldl (fun r b => r.bind b.1 b.2) { default := default }

def unbind? (r : Router) (name : String) : Option Router :=
  if (r.outputs.lookup name).isSome then
    some { r with outputs := r.outputs.filter (·.1 != name) }
  else none

/-- The id that a name is bound to. Nothing else is bound. -/
def binding? (r : Router) : OutputName → Option String
  | .name s => r.outputs.lookup s
  | _ => none

def resolve (r : Router) : Option OutputName → Except OutputFault (Option String)
  | none => .ok r.default
  | some name =>
    match r.binding? name with
    | some id => .ok (some id)
    | none => .error (.unknownOutput name none)

/-- Reports a note that nobody hears. -/
def reportDiscard (rig : Rig) (e : Event) : Rig :=
  rig.report .debug .router fun _ =>
    "Discarding " ++ e.kindName ++ " " ++ toString e.pitch ++ " (no default output bound)"

def sendTo (rig : Rig) (id : String) (e : Event) : Rig × Option OutputFault :=
  match rig.sinks.get? id with
  | none | some .null => (reportDiscard rig e, none)
  | some s =>
    let (s, fault) := s.send e
    ({ rig with sinks := rig.sinks.put id s }, fault)

/-- Sends an event to the sink of its output. An unknown output is reported with the event's
instruction, and nothing is sent. -/
def dispatch (r : Router) (rig : Rig) (e : Event) : Rig × Option OutputFault :=
  match r.resolve e.output with
  | .error (.unknownOutput name _) => (rig, some (.unknownOutput name (some e.index)))
  | .error f => (rig, some f)
  | .ok none => (reportDiscard rig e, none)
  | .ok (some id) => sendTo rig id e

/-- The distinct sinks, the default one first. -/
def sinkIds (r : Router) : List (Option String) :=
  r.outputs.foldl (fun ids b => if ids.contains (some b.2) then ids else ids ++ [some b.2])
    [r.default]

def close (r : Router) (sinks : Sinks) : Sinks :=
  r.sinkIds.foldl (fun sinks id =>
    match id with
    | none => sinks
    | some id =>
      match sinks.get? id with
      | some s => sinks.put id s.close
      | none => sinks) sinks

end Router

end Ostinato
