import Ostinato.Statement.Describe

/-!
# Flat programs

A linked program is a list of instructions addressed by index, with a symbol table, the span of
each label and the site of each jump. It never changes; machines that run it keep their own state.
-/

namespace Ostinato

/-- Where a label lies: its first instruction, the index after its last one, and the names of the
labels around it, outermost first. -/
structure Span where
  name : String
  start : Int
  stop : Int
  scope : List String := []
  pos : Pos := {}
  deriving Repr, DecidableEq

def Span.depth (s : Span) : Nat :=
  s.scope.length

/-- A jump: its own index, where it goes and how often it may be taken. -/
structure JumpSite where
  index : Int
  label : String
  target : Int
  bound : Option Int
  deriving Repr, DecidableEq

/-- Instructions with their symbol table. Programs built by hand may hold any statements. -/
structure Program where
  instructions : Array Statement := #[]
  labels : List (String × Int) := []
  spans : List Span := []
  jumpSites : List JumpSite := []
  sourceName : Option String := none
  timeSignature : SettingValue := .absent
  deriving Repr, Inhabited

namespace Program

def length (p : Program) : Nat :=
  p.instructions.size

def at? (p : Program) (i : Int) : Option Statement :=
  if i < 0 then none else p.instructions[i.toNat]?

def span? (p : Program) (name : String) : Option Span :=
  p.spans.find? (·.name == name)

def children (p : Program) : Option String → List Span
  | none => p.spans.filter fun s => s.scope.isEmpty
  | some name => p.spans.filter fun s => s.scope.getLast? == some name

def jumpSite? (p : Program) (index : Int) : Option JumpSite :=
  p.jumpSites.find? (·.index == index)

/-! ## Listing -/

/-- A note as it would be written in source text, the other parts of it being written already. -/
def noteText (on : Bool) (channel : String) (pitch : Int) (velocity : String)
    (output : Option String) : Except PitchFault String := do
  let note ← Pitch.name pitch
  let kind := if on then "NOTEON" else "NOTEOFF"
  let clause := match output with
    | none => ""
    | some name => ", OUTPUT = " ++ name
  .ok ("SEND " ++ kind ++ " " ++ channel ++ "r, " ++ note ++ ", " ++ velocity ++ clause)

def instructionText : Statement → Except PitchFault String
  | .tempo t => .ok ("SETBPM " ++ toString t.bpm ++ ", " ++ toString t.ticksPerBeat)
  | .send s => noteText s.on (toString s.channel) s.pitch (toString s.velocity) s.output
  | .looseSend s =>
    let output := if s.output = .absent then none else some (Describe.plainValue s.output)
    noteText s.on (Describe.plainValue s.channel) s.pitch (Describe.plainValue s.velocity) output
  | .wait w => .ok ("WAIT " ++ toString w.amount ++ " " ++ w.unit.name)
  | .jump j =>
    let count := match j.count with
      | none => ""
      | some n => " " ++ toString n
    .ok ("JUMP " ++ j.label ++ count ++ "  -> " ++ Describe.number j.target)
  | s => .ok (Describe.statement s)

/-- A number at the right of five columns. -/
def indexText (i : Nat) : String :=
  let digits := (toString i).toList
  String.ofList (List.replicate (5 - digits.length) ' ' ++ digits)

/-- The lines of the labels that start at an index. -/
def labelLines (p : Program) (i : Nat) : List String :=
  (p.spans.filter fun s => s.start == (i : Int)).map fun s =>
    String.ofList (List.replicate (2 * s.depth) ' ') ++ s.name ++ ":"

def listingFrom (p : Program) (i : Nat) : List Statement → Except PitchFault (List String)
  | [] => .ok (p.labelLines i)
  | s :: rest => do
    let text ← instructionText s
    let more ← listingFrom p (i + 1) rest
    .ok (p.labelLines i ++ (indexText i ++ "  " ++ text) :: more)

/-- The disassembly: one instruction a line, each label above its first instruction. -/
def listing (p : Program) : Except PitchFault String :=
  (listingFrom p 0 p.instructions.toList).map (String.intercalate "\n")

end Program

end Ostinato
