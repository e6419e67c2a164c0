import Ostinato.Event

/-!
# Sounding notes

The notes that a run has turned on and not yet off, in the order they began to sound. A note is
known by its output, channel and pitch.
-/

namespace Ostinato

/-- What tells one sounding note from another. -/
structure NoteKey where
  output : Option OutputName
  channel : Int
  pitch : Int
  deriving Repr, DecidableEq

def Event.key (e : Event) : NoteKey :=
  ⟨e.output, e.channel, e.pitch⟩

/-- Whether an event makes its note sound; a note-on without velocity does not. -/
def Event.sounds (e : Event) : Bool :=
  e.on && 0 < e.velocity

/-- Sounding notes, oldest first. -/
structure Sounding where
  notes : List NoteKey := []
  deriving Repr, DecidableEq

namespace Sounding

/-- Records a delivered event. A note struck again keeps its place. -/
def track (s : Sounding) (e : Event) : Sounding :=
  if e.sounds then
    if s.notes.contains e.key then s else ⟨s.notes ++ [e.key]⟩
  else ⟨s.notes.filter (· != e.key)⟩

def noteOff (time : Binary64) (tick : Int) (k : NoteKey) : Event :=
  { time := time, tick := tick, on := false, channel := k.channel, pitch := k.pitch,
    velocity := 0, output := k.output }

def release (s : Sounding) (time : Binary64) (tick : Int) : List Event × Sounding :=
  (s.notes.map (noteOff time tick), {})

def isEmpty (s : Sounding) : Bool :=
  s.notes.isEmpty

end Sounding

end Ostinato
