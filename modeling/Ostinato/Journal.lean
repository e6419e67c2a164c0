/-!
# Journal

What a run reports beside its results: entries with a level and the part of the program they come
from. Entries below the journal's threshold are not kept, and their text is never built.
-/

namespace Ostinato

inductive Level where
  | debug
  | info
  | warning
  | error
  deriving Repr, DecidableEq

namespace Level

/-- The customary numbers of the levels. -/
def severity : Level → Int
  | debug => 10
  | info => 20
  | warning => 30
  | error => 40

def name : Level → String
  | debug => "DEBUG"
  | info => "INFO"
  | warning => "WARNING"
  | error => "ERROR"

end Level

/-- The parts that report. -/
inductive Origin where
  | reader
  | linker
  | compiler
  | clock
  | machine
  | router
  | player
  | config
  | devices
  | command
  deriving Repr, DecidableEq

def Origin.name : Origin → String
  | reader => "reader"
  | linker => "linker"
  | compiler => "compiler"
  | clock => "clock"
  | machine => "machine"
  | router => "router"
  | player => "player"
  | config => "config"
  | devices => "devices"
  | command => "command"

structure Entry where
  level : Level
  origin : Origin
  text : String
  deriving Repr, DecidableEq

/-- Entries so far, latest first, and the severity from which they are kept; without one, nothing
is. -/
structure Journal where
  threshold : Option Int := none
  latest : List Entry := []
  deriving Repr

namespace Journal

def silent : Journal := {}

def keeps (j : Journal) (level : Level) : Bool :=
  match j.threshold with
  | none => false
  | some t => t ≤ level.severity

def add (j : Journal) (level : Level) (origin : Origin) (text : Unit → String) : Journal :=
  if j.keeps level then { j with latest := ⟨level, origin, text ()⟩ :: j.latest } else j

def entries (j : Journal) : List Entry :=
  j.latest.reverse

end Journal

end Ostinato
