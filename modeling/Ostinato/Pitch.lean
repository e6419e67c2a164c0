import Ostinato.Text.Digit
import Ostinato.Text.Quoted

/-!
# Pitches and chords

A pitch literal is a letter, an accidental and an octave; middle C is `c4`, note 60. A chord is a
root note and a kind, and its notes are at fixed intervals above the root.
-/

namespace Ostinato

def maxNote : Int := 127

def maxVelocity : Int := 127

def channelCount : Int := 16

/-! ## Pitch literals -/

/-- Why a pitch literal or note number names no pitch. -/
inductive PitchFault where
  | malformed (literal : String)
  /-- The long s reads as a sharp sign, which has no such spelling. -/
  | strangeAccidental (c : Char)
  /-- The octave is too long to be converted. -/
  | longOctave (digits : Nat)
  | outsideRange (literal : String) (note : Int)
  | noSuchNote (note : Int)
  deriving Repr, DecidableEq

def PitchFault.message : PitchFault → String
  | .malformed t =>
    "Malformed pitch literal " ++ Text.quoted t ++ ". Expected e.g. 'd3', 'fs4', 'cs5'."
  | .strangeAccidental c => Text.quoted (String.singleton c)
  | .longOctave digits => Text.readRefused digits
  | .outsideRange t n =>
    if (toString n.natAbs).length ≤ Text.digitLimit then
      "Pitch " ++ Text.quoted t ++ " resolves to " ++ toString n ++ ", outside the MIDI range 0-127"
    else Text.conversionRefused ""
  | .noSuchNote n => "Note " ++ toString n ++ " is outside the MIDI range 0-127"

namespace Pitch

def natural? (c : Char) : Option Int :=
  match c.toLower with
  | 'c' => some 0
  | 'd' => some 2
  | 'e' => some 4
  | 'f' => some 5
  | 'g' => some 7
  | 'a' => some 9
  | 'b' => some 11
  | _ => none

def isLongS (c : Char) : Bool :=
  c.toNat == 0x17f

def accidental? (c : Char) : Option Int :=
  match c.toLower with
  | 's' => some 1
  | '#' => some 1
  | 'f' => some (-1)
  | 'b' => some (-1)
  | _ => none

/-- A signed run of digits, with one line feed allowed after it. -/
def octave? (cs : List Char) : Option Int :=
  let (neg, body) :=
    match cs with
    | '-' :: r => (true, r)
    | r => (false, r)
  let digits := body.takeWhile Text.isDigit
  let rest := body.dropWhile Text.isDigit
  if digits.isEmpty || !(rest.isEmpty || rest == ['\n']) then none
  else
    let n : Int := Text.number digits
    some (if neg then -n else n)

/-- The parts of a literal: semitones of the letter, the accidental if there is one, the octave. -/
def split? : List Char → Option (Int × Option Char × Int)
  | [] => none
  | letter :: rest =>
    match natural? letter with
    | none => none
    | some pc =>
      match rest with
      | a :: more =>
        if (accidental? a).isSome || isLongS a then
          (octave? more).map fun o => (pc, some a, o)
        else (octave? rest).map fun o => (pc, none, o)
      | [] => none

def parse (literal : String) : Except PitchFault Int :=
  match split? literal.toList with
  | none => .error (.malformed literal)
  | some (pc, accidental, octave) =>
    let shift : Except PitchFault Int :=
      match accidental with
      | none => .ok 0
      | some a =>
        match accidental? a with
        | some k => .ok k
        | none => .error (.strangeAccidental a)
    match shift with
    | .error e => .error e
    | .ok k =>
      -- Only the octave of a literal has digits.
      let digits := literal.toList.countP Text.isDigit
      let note := (octave + 1) * 12 + pc + k
      if Text.digitLimit < digits then .error (.longOctave digits)
      else if 0 ≤ note ∧ note ≤ maxNote then .ok note
      else .error (.outsideRange literal note)

def className (pc : Nat) : String :=
  match pc with
  | 0 => "c"
  | 1 => "cs"
  | 2 => "d"
  | 3 => "ds"
  | 4 => "e"
  | 5 => "f"
  | 6 => "fs"
  | 7 => "g"
  | 8 => "gs"
  | 9 => "a"
  | 10 => "as"
  | _ => "b"

/-- The literal that names a note, spelled with sharps. -/
def name (note : Int) : Except PitchFault String :=
  if 0 ≤ note ∧ note ≤ maxNote then
    .ok (className (note.toNat % 12) ++ toString (note / 12 - 1))
  else .error (.noSuchNote note)

end Pitch

/-! ## Chords -/

/-- The chords that a press line can name. A chord built by hand may have a kind of any name. -/
inductive ChordKind where
  | raw
  | fifth
  | major
  | minor
  | major7
  | minor7
  | unknown (name : String)
  deriving Repr, DecidableEq

namespace ChordKind

def name : ChordKind → String
  | raw => "raw"
  | fifth => "fifth"
  | major => "major"
  | minor => "minor"
  | major7 => "major7"
  | minor7 => "minor7"
  | unknown n => n

def ofName (n : String) : ChordKind :=
  match n with
  | "raw" => raw
  | "fifth" => fifth
  | "major" => major
  | "minor" => minor
  | "major7" => major7
  | "minor7" => minor7
  | other => unknown other

/-- Semitones above the root, lowest first; none for an unknown kind. -/
def intervals? : ChordKind → Option (List Int)
  | raw => some [0]
  | fifth => some [0, 7]
  | major => some [0, 4, 7]
  | minor => some [0, 3, 7]
  | major7 => some [0, 4, 7, 11]
  | minor7 => some [0, 3, 7, 10]
  | unknown _ => none

/-- The kinds that stand after the colon of a chord literal. The words are also read in capitals. -/
def ofSuffix? (suffix : String) : Option ChordKind :=
  match suffix with
  | "5" => some fifth
  | "M" => some major
  | "m" => some minor
  | "M7" => some major7
  | "m7" => some minor7
  | s =>
    match (String.ofList (s.toList.map Char.toLower)) with
    | "maj" => some major
    | "min" => some minor
    | "maj7" => some major7
    | "min7" => some minor7
    | _ => none

end ChordKind

structure Chord where
  root : Int
  kind : ChordKind := .raw
  deriving Repr, DecidableEq

inductive ChordFault where
  | unknownSuffix (suffix : String)
  | unknownKind (name : String)
  | rootOutside (fault : PitchFault)
  | tooHigh (kind rootName : String) (top : Int)
  deriving Repr, DecidableEq

def ChordFault.message : ChordFault → String
  | .unknownSuffix s =>
    "Unknown chord kind " ++ Text.quoted s ++
      ". Expected one of: 5, M, m, M7, m7, maj, min, maj7, min7"
  | .unknownKind n => "Unknown chord kind " ++ Text.quoted n
  | .rootOutside f => f.message
  | .tooHigh kind rootName top =>
    kind ++ " chord on " ++ rootName ++ " reaches note " ++ toString top ++
      ", outside the MIDI range 0-127"

def ChordKind.parse (suffix : String) : Except ChordFault ChordKind :=
  match ofSuffix? suffix with
  | some k => .ok k
  | none => .error (.unknownSuffix suffix)

def Chord.notes (c : Chord) : Except ChordFault (List Int) :=
  match c.kind.intervals? with
  | none => .error (.unknownKind c.kind.name)
  | some steps =>
    let notes := steps.map (c.root + ·)
    let top := notes.getLastD c.root
    if top ≤ maxNote then .ok notes
    else
      match Pitch.name c.root with
      | .error f => .error (.rootOutside f)
      | .ok rootName => .error (.tooHigh c.kind.name rootName top)

end Ostinato
