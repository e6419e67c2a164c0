import Ostinato.Program
import Ostinato.Source.Fault
import Ostinato.Text.Upper

/-!
# Linking

The tree is walked in program order and flattened. A label records where its body starts and ends.
A loop becomes its body and a jump back, a press line its notes, a wait and the releases, and
settings leave nothing but the values that press lines fall back to. Then every jump is resolved.
-/

namespace Ostinato

inductive LinkFault where
  | duplicateLabel (name : String) (first : Pos)
  | undefinedLabel (index : Nat) (name : String)
  | settingRepeated (keyword : String) (first : Pos)
  | settingMisplaced (keyword : String)
  | unknownSetting (name : String)
  /-- A press line takes its duration from a setting that is none. -/
  | noDuration
  | chord (fault : ChordFault)
  deriving Repr, DecidableEq

def LinkFault.message : LinkFault → String
  | duplicateLabel name first =>
    "Duplicate label " ++ Text.quoted name ++ " (first declared at line " ++
      toString first.line ++ ", column " ++ toString first.column ++ ")"
  | undefinedLabel index name =>
    "JUMP at instruction " ++ toString index ++ " targets undefined label " ++ Text.quoted name
  | settingRepeated keyword first =>
    keyword ++ " is already set (line " ++ toString first.line ++ ", column " ++
      toString first.column ++ ")"
  | settingMisplaced keyword =>
    keyword ++ " must be in the program header, before any statement other than SETBPM"
  | unknownSetting name => "Unknown setting " ++ Text.quoted name
  | noDuration => "The default duration is no duration"
  | chord fault => fault.message

namespace Link

/-- What a press line uses for each part it leaves out. Settings made by hand may be of any kind. -/
structure Defaults where
  velocity : SettingValue := .number 90
  channel : SettingValue := .number 0
  duration : SettingValue := .duration { amount := 1 }
  output : SettingValue := .absent
  deriving Repr, DecidableEq

structure Declaration where
  name : String
  pos : Pos
  start : Nat
  deriving Repr, DecidableEq

structure State where
  code : Array Statement := #[]
  declared : List Declaration := []
  spans : List Span := []
  defaults : Defaults := {}
  settings : List Setting := []
  signature : SettingValue := .absent
  inHeader : Bool := true

abbrev Failure := LinkFault × Pos

/-! ## Settings -/

def settingKeyword (name : String) : String :=
  if name == "signature" then "SIGNATURE" else "DEFAULT " ++ Text.upper name

/-- Stores a setting's value, if there is a setting of that name. -/
def State.store? (st : State) (s : Setting) : Option State :=
  let st := { st with settings := st.settings ++ [s] }
  match s.name with
  | "velocity" => some { st with defaults := { st.defaults with velocity := s.value } }
  | "channel" => some { st with defaults := { st.defaults with channel := s.value } }
  | "duration" => some { st with defaults := { st.defaults with duration := s.value } }
  | "output" => some { st with defaults := { st.defaults with output := s.value } }
  | "signature" => some { st with signature := s.value }
  | _ => none

/-- A setting stands in the header and is given once. -/
def State.set (st : State) (s : Setting) : Except Failure State :=
  match st.settings.find? (·.name == s.name) with
  | some first => .error (.settingRepeated (settingKeyword s.name) first.pos, s.pos)
  | none =>
    if !st.inHeader then .error (.settingMisplaced (settingKeyword s.name), s.pos)
    else
      match st.store? s with
      | some st => .ok st
      | none => .error (.unknownSetting s.name, s.pos)

/-! ## Press lines -/

/-- Appends the values that are not there yet. -/
def addNew (seen : List Int) : List Int → List Int
  | [] => seen
  | n :: rest => if seen.contains n then addNew seen rest else addNew (seen ++ [n]) rest

/-- The distinct notes of some chords, in order of first occurrence. -/
def pitches (seen : List Int) : List Chord → Except ChordFault (List Int)
  | [] => .ok seen
  | c :: rest =>
    match c.notes with
    | .error f => .error f
    | .ok notes => pitches (addNew seen notes) rest

/-- The name of an output, if the value can be one. -/
def outputName? : SettingValue → Option (Option String)
  | .absent => some none
  | .name s => some (some s)
  | _ => none

/-- A note with values that come from settings. -/
def note (on : Bool) (channel velocity output : SettingValue) (pos : Pos) (pitch : Int) :
    Statement :=
  match channel, velocity, outputName? output with
  | .number c, .number v, some o => .send ⟨on, c, pitch, v, o, pos⟩
  | _, _, _ => .looseSend ⟨on, channel, pitch, velocity, output, pos⟩

def pressWait? (d : Defaults) (p : Play) : Option Wait :=
  match p.duration, d.duration with
  | some w, _ => some w
  | none, .duration w => some w
  | none, _ => none

def press (d : Defaults) (p : Play) : Except LinkFault (List Statement) :=
  match pitches [] p.chords with
  | .error f => .error (.chord f)
  | .ok notes =>
    let channel := (p.channel.map .number).getD d.channel
    let velocity := (p.velocity.map .number).getD d.velocity
    let output := (p.output.map .name).getD d.output
    match pressWait? d p with
    | none => .error .noDuration
    | some wait =>
      .ok (notes.map (note true channel velocity output p.pos) ++
        .wait { wait with pos := p.pos } ::
        notes.map (note false channel (.number 0) output p.pos))

/-! ## The walk -/

/-- The name of a loop's jump, which no label can have. -/
def loopName (pos : Pos) : String :=
  "loop@" ++ toString pos.line

def State.push (st : State) (s : Statement) : State :=
  { st with code := st.code.push s }

/-- The jump back to `start` that ends a loop; a loop that runs once has none. -/
def State.closeLoop (st : State) (count : Option Int) (start : Nat) (pos : Pos) : State :=
  if count = some 1 then st
  else st.push (.jump ⟨loopName pos, count.map (· - 1), some (start : Int), pos⟩)

mutual

/-- Flattens one statement that stands in the labels of `scope`. -/
def emit (scope : List String) (st : State) : Statement → Except Failure State
  | .setting s => st.set s
  | .label name body pos =>
    let st := { st with inHeader := false }
    match st.declared.find? (·.name == name) with
    | some first => .error (.duplicateLabel name first.pos, pos)
    | none =>
      let start := st.code.size
      match emitAll (scope ++ [name])
          { st with declared := st.declared ++ [⟨name, pos, start⟩] } body with
      | .error e => .error e
      | .ok st =>
        .ok { st with spans := st.spans ++ [⟨name, start, st.code.size, scope, pos⟩] }
  | .loop count body pos =>
    let st := { st with inHeader := false }
    let start := st.code.size
    match emitAll scope st body with
    | .error e => .error e
    | .ok st => .ok (st.closeLoop count start pos)
  | .play p =>
    let st := { st with inHeader := false }
    match press st.defaults p with
    | .error f => .error (f, p.pos)
    | .ok code => .ok { st with code := st.code ++ code.toArray }
  | .tempo t => .ok (st.push (.tempo t))
  | .send s => .ok ({ st with inHeader := false }.push (.send s))
  | .looseSend s => .ok ({ st with inHeader := false }.push (.looseSend s))
  | .wait w => .ok ({ st with inHeader := false }.push (.wait w))
  | .jump j => .ok ({ st with inHeader := false }.push (.jump j))

def emitAll (scope : List String) (st : State) : List Statement → Except Failure State
  | [] => .ok st
  | s :: rest =>
    match emit scope st s with
    | .error e => .error e
    | .ok st => emitAll scope st rest

end

/-! ## Jumps -/

def start? (declared : List Declaration) (name : String) : Option Int :=
  (declared.find? (·.name == name)).map fun d => (d.start : Int)

/-- Resolves the jumps of the instructions from index `i` on. A jump that has a target keeps it. -/
def resolve (declared : List Declaration) (i : Nat) :
    List Statement → Except Failure (List Statement × List JumpSite)
  | [] => .ok ([], [])
  | .jump j :: rest =>
    match j.target.or (start? declared j.label) with
    | none => .error (.undefinedLabel i j.label, j.pos)
    | some target =>
      match resolve declared (i + 1) rest with
      | .error e => .error e
      | .ok (code, sites) =>
        .ok (.jump { j with target := some target } :: code,
          ⟨i, j.label, target, j.count⟩ :: sites)
  | s :: rest =>
    match resolve declared (i + 1) rest with
    | .error e => .error e
    | .ok (code, sites) => .ok (s :: code, sites)

/-- Spans are listed by where they start, and of those that start together the outer ones come
first. -/
def spanLe (a b : Span) : Bool :=
  a.start < b.start || (a.start == b.start && a.depth ≤ b.depth)

def program (tree : List Statement) (name : Option String) : Except Failure Program :=
  match emitAll [] {} tree with
  | .error e => .error e
  | .ok st =>
    match resolve st.declared 0 st.code.toList with
    | .error e => .error e
    | .ok (code, sites) =>
      .ok {
        instructions := code.toArray
        labels := st.declared.map fun d => (d.name, (d.start : Int))
        spans := st.spans.mergeSort spanLe
        jumpSites := sites
        sourceName := name
        timeSignature := st.signature }

end Link

def link (tree : List Statement) (name : Option String) : Except (Located LinkFault) Program :=
  match Link.program tree name with
  | .error (fault, pos) => .error ⟨fault, pos, name⟩
  | .ok p => .ok p

end Ostinato
