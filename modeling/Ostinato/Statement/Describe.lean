import Ostinato.Statement

/-!
# Statements spelled out

A block, press line or setting that turns up among flat instructions is shown with the names and
values of all its fields, as `Label(name='x', body=(), line=0, column=0)`.
-/

namespace Ostinato.Describe

def flag (b : Bool) : String :=
  if b then "True" else "False"

def option (print : α → String) : Option α → String
  | none => "None"
  | some a => print a

def text : Option String → String :=
  option Text.quoted

def number : Option Int → String :=
  option toString

def tuple : List String → String
  | [] => "()"
  | [x] => "(" ++ x ++ ",)"
  | xs => "(" ++ String.intercalate ", " xs ++ ")"

def record (name : String) (fields : List (String × String)) (pos : Pos) : String :=
  let all := fields ++ [("line", toString pos.line), ("column", toString pos.column)]
  name ++ "(" ++ String.intercalate ", " (all.map fun (k, v) => k ++ "=" ++ v) ++ ")"

def chord (c : Chord) : String :=
  "Chord(root=" ++ toString c.root ++ ", kind=" ++ Text.quoted c.kind.name ++ ")"

def wait (w : Wait) : String :=
  record "Wait" [("amount", toString w.amount), ("unit", Text.quoted w.unit.name)] w.pos

def value : SettingValue → String
  | .absent => "None"
  | .number n => toString n
  | .name s => Text.quoted s
  | .duration w => wait w
  | .pair a b => tuple [toString a, toString b]

def outputName : OutputName → String
  | .name s => Text.quoted s
  | .number n => toString n
  | .duration w => wait w
  | .pair a b => tuple [toString a, toString b]

def plainValue : SettingValue → String
  | .name s => s
  | v => value v

def play (p : Play) : String :=
  record "Play"
    [("chords", tuple (p.chords.map chord)), ("duration", option wait p.duration),
      ("velocity", number p.velocity), ("channel", number p.channel), ("output", text p.output)]
    p.pos

mutual

def statement : Statement → String
  | .tempo t =>
    record "SetTempo"
      [("bpm", toString t.bpm), ("ticks_per_beat", toString t.ticksPerBeat)] t.pos
  | .send s =>
    record "SendNote"
      [("on", flag s.on), ("channel", toString s.channel), ("pitch", toString s.pitch),
        ("velocity", toString s.velocity), ("output", text s.output)] s.pos
  | .looseSend s =>
    record "SendNote"
      [("on", flag s.on), ("channel", value s.channel), ("pitch", toString s.pitch),
        ("velocity", value s.velocity), ("output", value s.output)] s.pos
  | .wait w => wait w
  | .jump j =>
    record "Jump"
      [("label", Text.quoted j.label), ("count", number j.count), ("target", number j.target)]
      j.pos
  | .label name body pos =>
    record "Label" [("name", Text.quoted name), ("body", tuple (statements body))] pos
  | .loop count body pos =>
    record "Loop" [("count", number count), ("body", tuple (statements body))] pos
  | .play p => play p
  | .setting s =>
    record "Attribute" [("name", Text.quoted s.name), ("value", value s.value)] s.pos

def statements : List Statement → List String
  | [] => []
  | s :: rest => statement s :: statements rest

end

end Ostinato.Describe
