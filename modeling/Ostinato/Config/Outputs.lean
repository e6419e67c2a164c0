import Ostinato.Config.Settings
import Ostinato.Device
import Ostinato.Router

/-!
# Configured outputs

The outputs section binds names to MIDI devices, OSC targets or nothing. Outputs are opened in
order, and the first that cannot be opened ends it.
-/

namespace Ostinato.Config

open Yaml (Value)

inductive Output where
  | device (name : String)
  | osc (host : Value) (portNumber : Int) (base : String)
  | null

namespace Output

def typeName : Output → String
  | device _ => "MidoPortSink"
  | osc .. => "OscSink"
  | null => "NullSink"

def toSink : Output → Sink
  | device name => .onDevice (some name) (some name)
  | osc _ _ base => .overOsc base
  | null => .null

end Output

/-- The OSC target that an entry describes. -/
def oscOutput (entries : List (Value × Value)) : Except ConfigFault Output := do
  let host := (Value.lookup entries "host").getD (.text "127.0.0.1")
  let number ← ((Value.lookup entries "port").getD (.int 9001)).toInt.mapError .number
  match (Value.lookup entries "prefix").getD (.text "") with
  | .text base => return .osc host number (Sink.addressBase base)
  | .bytes _ => .error .bytesForText
  | _ => .error .wrongKind

def openOutput (b : Backend) (name entry : Value) (s : Backend.Selection) :
    Backend.Selection × Except ConfigFault Output :=
  match entriesOf entry with
  | .error f => (s, .error f)
  | .ok entries =>
    match (Value.lookup entries "type").getD (.text "midi") with
    | .text "midi" =>
      let device := (Value.lookup entries "device").getD .null
      let s := b.select device true { s with device := none }
      match s.device with
      | some opened => (s, .ok (.device opened))
      | none => (s, .error (.deviceNotOpened device))
    | .text "osc" => (s, oscOutput entries)
    | .text "null" => (s, .ok .null)
    | type => (s, .error (.unknownOutputType name type))

def openAll (b : Backend) (s : Backend.Selection) :
    List (Value × Value) → Backend.Selection × Except ConfigFault (List (Value × Output))
  | [] => (s, .ok [])
  | (name, entry) :: rest =>
    match openOutput b name entry s with
    | (s, .error f) => (s, .error f)
    | (s, .ok output) =>
      let s := { s with journal := s.journal.add .info .config fun _ =>
        "Output " ++ name.display ++ " bound to " ++ output.typeName }
      match openAll b s rest with
      | (s, .error f) => (s, .error f)
      | (s, .ok outputs) => (s, .ok ((name, output) :: outputs))

def isDefault (name : Value) : Bool :=
  name.sameKey (.text "default")

/-- The outputs of a configuration: the default one, if there is one, and those with names. -/
structure Outputs where
  default : Option Output := none
  named : List (Value × Output) := []

def openOutputs (b : Backend) (config : Value) (s : Backend.Selection) :
    Backend.Selection × Except ConfigFault Outputs :=
  match sectionOf config "outputs" with
  | .error f => (s, .error f)
  | .ok entries =>
    match openAll b s entries with
    | (s, .error f) => (s, .error f)
    | (s, .ok outputs) =>
      (s, .ok {
        default := (outputs.find? fun o => isDefault o.1).map Prod.snd
        named := outputs.filter fun o => !isDefault o.1 })

/-- The sinks of outputs, and a router to them. Only names that are texts can be addressed. -/
def Outputs.connect (o : Outputs) : Sinks × Router :=
  let texts := o.named.filterMap fun (name, output) =>
    match name with
    | .text s => some (s, output)
    | _ => none
  let ids := texts.map fun (name, output) => ("output " ++ name, output.toSink)
  let fallback := o.default.toList.map fun output => ("default", output.toSink)
  (fallback ++ ids,
    Router.ofBindings (o.default.map fun _ => "default")
      (texts.map fun (name, _) => (name, "output " ++ name)))

end Ostinato.Config
