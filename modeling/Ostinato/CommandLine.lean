import Ostinato.CommandLine.Options
import Ostinato.CommandLine.Place
import Ostinato.Compile
import Ostinato.Config.Outputs
import Ostinato.Live.Stage
import Ostinato.Render

/-!
# The command

Compiles a program file and lists it, renders it to a MIDI file or plays it. The command works on a
snapshot of its surroundings and leaves behind what it printed, wrote and reported, so that the
outer layer only has to carry that out.
-/

namespace Ostinato.CommandLine

/-- What the command finds. -/
structure Surroundings where
  /-- What paths lead to. -/
  place : String → Place
  backend : Backend := {}
  /-- Whether the configuration decides what the journal keeps. -/
  configuresJournal : Bool := true
  /-- How many scheduling points a live run may pass. -/
  patience : Nat

inductive CommandFault where
  | config (fault : Config.ConfigFault)
  | path (name : String) (fault : PathFault)
  | compile (fault : CompileFault)
  | pitch (fault : PitchFault)
  | render (fault : RenderFault)
  | midi (fault : Midi.MidiFault)
  | player (fault : Live.PlayerFault)
  | run (fault : Live.RunFault)
  /-- The run had not ended when it was given up. -/
  | unfinished

def CommandFault.message : CommandFault → String
  | config f => f.message
  | path name f => f.message name
  | compile f => f.message
  | pitch f => f.message
  | render f => f.message
  | midi f => f.message
  | player f => f.message
  | run (.overflow o) => o.message
  | run (.listener text) => text
  | unfinished => "the program did not end"

/-- A file that was written, and whether it is new. -/
structure Written where
  name : String
  bytes : List Nat
  isNew : Bool
  deriving Repr

/-- What the command has done so far. -/
structure Desk where
  journal : Journal
  printed : String := ""
  written : List Written := []
  answers : List String := []

/-- A part of the command: it works on the desk and may fail. -/
abbrev Command := ExceptT CommandFault (StateM Desk)

namespace Command

def attempt (e : Except ε α) (fault : ε → CommandFault) : Command α :=
  match e with
  | .ok a => pure a
  | .error f => throw (fault f)

def print (text : String) : Command Unit :=
  modify fun d => { d with printed := d.printed ++ text }

def report (level : Level) (text : String) : Command Unit :=
  modify fun d => { d with journal := d.journal.add level .command fun _ => text }

/-- Runs what hands its journal on. -/
def journaled (f : Journal → Journal × α) : Command α :=
  modifyGet fun d =>
    let (journal, a) := f d.journal
    (a, { d with journal := journal })

end Command

open Command

def readText (env : Surroundings) (path : String) : Command String :=
  attempt (env.place path).read (.path path)

def configure (env : Surroundings) (o : Options) : Command Yaml.Value := do
  let text ← if (env.place o.config).isTaken then some <$> readText env o.config else pure none
  let config ← attempt (← journaled (Config.load o.config text)) .config
  let level ← attempt (Config.loggingLevel config 20) .config
  if env.configuresJournal then
    modify fun d =>
      { d with journal := { d.journal with threshold := d.journal.threshold.map fun _ => level } }
  return config

/-- Prints the devices, one a line. -/
def listOutputs (env : Surroundings) : Command Int := do
  let names ← journaled env.backend.outputNames
  print (String.join (names.map (· ++ "\n")))
  return 0

def reportSavingRender (j : Journal) (count : Nat) (name : String) : Journal :=
  j.add .info .player fun _ =>
    "Saving render (" ++ toString count ++ " events) to " ++ name ++ "..."

def exitCode (r : RunResult) : Int :=
  if r.state = .faulted then 1 else 0

def renderTo (env : Surroundings) (o : Options) (p : Program) (name : String) : Command Int := do
  let request : Render.Request := { limits := { maxSeconds := some (.real o.maxSeconds) } }
  let outcome ← journaled fun j =>
    let (rig, outcome) := render p request { journal := j } env.patience
    (rig.journal, outcome)
  let rendering ← attempt outcome .render
  modify fun d => { d with journal := reportSavingRender d.journal rendering.events.length name }
  let track ← attempt rendering.track .midi
  match ← attempt (env.place name).target (.path name) with
  | none => return exitCode rendering.result
  | some (file, isNew) =>
    modify fun d => { d with written := d.written ++ [⟨file, Midi.file track, isNew⟩] }
    return exitCode rendering.result

def openOutputs (env : Surroundings) (config : Yaml.Value) : Command Config.Outputs := do
  let d ← get
  let (s, outputs) := Config.openOutputs env.backend config
    { journal := d.journal, answers := d.answers }
  set { d with journal := s.journal, printed := d.printed ++ s.printed, answers := s.answers }
  attempt outputs .config

def playLive (env : Surroundings) (config : Yaml.Value) (p : Program) : Command Int := do
  let settings ← attempt (Config.playerSettings config) .config
  let outputs ← openOutputs env config
  let (sinks, router) := outputs.connect
  let player ← attempt
    (Live.Player.create p router [] settings.spinWait settings.yieldInterval) .player
  let ending ← journaled fun j =>
    let rig := Live.reportPlaying { sinks := sinks, journal := Machine.reportLoad j }
    let (a, ending) := Live.play player.part Live.noCue env.patience
      { machine := player.machine, rig := rig }
    (a.rig.journal, ending)
  match ending with
  | none => throw .unfinished
  | some ending =>
    let result ← attempt ending .run
    for fault in result.outputErrors do
      report .warning ("Output error: " ++ fault.message)
    return exitCode result

def handle (env : Surroundings) (config : Yaml.Value) (o : Options) (source : String) :
    Command Int := do
  let text ← readText env source
  let text := String.ofList (Text.unifyBreaks text.toList)
  match ← journaled (compileReporting · text (some source)) with
  | .error f =>
    if f.isProgramFault then
      report .error ("Compilation failed: " ++ f.message)
      return 1
    else throw (.compile f)
  | .ok p =>
    if o.listing then
      let listing ← attempt p.listing .pitch
      print (listing ++ "\n")
      return 0
    else
      match o.render with
      | none | some "" => playLive env config p
      | some name => renderTo env o p name

/-- Carries out what the options ask for: the exit code. -/
def carryOut (env : Surroundings) (o : Options) : Command Int := do
  let config ← configure env o
  if o.listOutputs then listOutputs env
  else
    match o.source with
    | none =>
      report .error "No program file given."
      return 2
    | some source => handle env config o source

def usage : String :=
  "usage: midiasm [-h] [--config CONFIG] [--render FILE] [--max-seconds MAX_SECONDS]\n" ++
  "               [--listing] [--list-outputs]\n               [source]\n"

/-- Runs the command. Arguments that make no sense are refused with exit code 2. -/
def run (env : Surroundings) (arguments : List String) (d : Desk) :
    Except CommandFault Int × Desk :=
  match parse arguments with
  | .error _ => (.ok 2, d)
  | .ok .help => (.ok 0, { d with printed := d.printed ++ usage })
  | .ok (.run o) => (carryOut env o).run.run d

end Ostinato.CommandLine
