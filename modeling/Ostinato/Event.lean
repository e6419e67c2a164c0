import Ostinato.Statement

/-!
# Note events

A note message with the virtual time it is due at.
-/

namespace Ostinato

/-- Time is in seconds and ticks since the start of the run. `index` is the instruction that sent
the note; a release has none and carries `-1`. -/
structure Event where
  time : Binary64
  tick : Int
  on : Bool
  channel : Int
  pitch : Int
  velocity : Int
  output : Option OutputName := none
  index : Int := -1
  deriving Repr, DecidableEq

def Event.kindName (e : Event) : String :=
  if e.on then "note_on" else "note_off"

end Ostinato
