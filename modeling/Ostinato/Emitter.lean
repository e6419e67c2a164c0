import Ostinato.Text.Quoted

/-!
# Event emitter

Named events with callbacks that are called in the order they were registered. An emission goes to
the callbacks registered when it begins. Callbacks may register and remove others, fail, and, when
they are deferred, give way a number of times before they do their work.
-/

namespace Ostinato.Emitter

inductive Fault where
  | notRegistered (event : String)
  | deferredInSync (event : String)
  /-- An argument has a name that the emission uses itself. -/
  | reservedName
  /-- A callback failed of its own. -/
  | callback (message : String)
  deriving Repr, DecidableEq

def Fault.message : Fault → String
  | notRegistered event => "Callback not registered for event " ++ Text.quoted event
  | deferredInSync event =>
    "Async callback registered for " ++ Text.quoted event ++ " cannot run in emit_sync"
  | reservedName => "an argument has a reserved name"
  | callback text => text

/-- What a callback does to the emitter. -/
inductive Change where
  | on (event id : String)
  | off (event id : String)
  deriving Repr, DecidableEq

structure Callback where
  deferred : Option Nat := none
  changes : List Change := []
  fails : Option String := none
  deriving Repr

/-- The callback ids registered for each event. -/
structure Registry where
  events : List (String × List String) := []
  deriving Repr

namespace Registry

def listeners (r : Registry) (event : String) : List String :=
  (r.events.lookup event).getD []

def hasListeners (r : Registry) (event : String) : Bool :=
  !(r.listeners event).isEmpty

def put (r : Registry) (event : String) (ids : List String) : Registry :=
  if (r.events.lookup event).isSome then
    ⟨r.events.map fun e => if e.1 == event then (event, ids) else e⟩
  else ⟨r.events ++ [(event, ids)]⟩

def on (r : Registry) (event id : String) : Registry :=
  r.put event (r.listeners event ++ [id])

/-- Removes the first registration of a callback. -/
def off (r : Registry) (event id : String) : Except Fault Registry :=
  if (r.listeners event).contains id then .ok (r.put event ((r.listeners event).erase id))
  else .error (.notRegistered event)

end Registry

/-- What is on record about a callback: that it began, or that it did its work. -/
inductive Mark where
  | began (id : String)
  | called (id : String)
  deriving Repr, DecidableEq

/-- An emission under way. -/
structure State where
  registry : Registry
  /-- Latest first. -/
  marks : List Mark := []

/-- Makes changes in order, up to the first that fails. -/
def applyAll (r : Registry) : List Change → Registry × Option Fault
  | [] => (r, none)
  | .on event id :: rest => applyAll (r.on event id) rest
  | .off event id :: rest =>
    match r.off event id with
    | .ok r => applyAll r rest
    | .error f => (r, some f)

def work (s : State) (id : String) (c : Callback) : State × Option Fault :=
  let s := { s with marks := .called id :: s.marks }
  match applyAll s.registry c.changes with
  | (r, some f) => ({ s with registry := r }, some f)
  | (r, none) => ({ s with registry := r }, c.fails.map .callback)

/-- The callbacks by id; an unknown one does nothing. -/
abbrev Callbacks := String → Callback

/-- Calls callbacks in order, none of which may be deferred, up to the first failure. -/
def callSync (cs : Callbacks) (event : String) (s : State) : List String → State × Option Fault
  | [] => (s, none)
  | id :: rest =>
    if (cs id).deferred.isSome then (s, some (.deferredInSync event))
    else
      match work s id (cs id) with
      | (s, none) => callSync cs event s rest
      | failed => failed

/-- The names that no argument of an emission can have. -/
def reservedNames : List String := ["self", "event_name"]

/-- Calls all callbacks of an event at once, the arguments having some names. -/
def emitSync (cs : Callbacks) (s : State) (event : String) (names : List String) :
    State × Option Fault :=
  if names.any reservedNames.contains then (s, some .reservedName)
  else callSync cs event s (s.registry.listeners event)

/-- A deferred callback: how often it still gives way, or that it has not begun. -/
structure Pending where
  id : String
  left : Option Nat

/-- One round: every deferred callback takes its turn, and those not done yet stay. -/
def round (cs : Callbacks) (s : State) (first : Option Fault) :
    List Pending → State × Option Fault × List Pending
  | [] => (s, first, [])
  | p :: rest =>
    let c := cs p.id
    let s := match p.left with
      | none => { s with marks := .began p.id :: s.marks }
      | some _ => s
    match p.left.getD (c.deferred.getD 0) with
    | 0 =>
      let (s, failure) := work s p.id c
      round cs s (first.or failure) rest
    | n + 1 =>
      let (s, first, more) := round cs s first rest
      (s, first, ⟨p.id, some n⟩ :: more)

def lastRounds (cs : Callbacks) : Nat → State → List Pending → State
  | 0, s, _ => s
  | n + 1, s, pending =>
    let (s, _, pending) := round cs s none pending
    lastRounds cs n s pending

/-- How many more rounds there are after one with a failure. -/
def roundsAfterFailure : Nat := 3

/-- Rounds until all are done. The first failure counts; the others go on until it has come
through, and those that are not done by then are given up. -/
def rounds (cs : Callbacks) : Nat → State → List Pending → State × Option Fault
  | 0, s, _ => (s, none)
  | _ + 1, s, [] => (s, none)
  | fuel + 1, s, pending =>
    match round cs s none pending with
    | (s, none, pending) => rounds cs fuel s pending
    | (s, some f, pending) => (lastRounds cs roundsAfterFailure s pending, some f)

def callPlain (cs : Callbacks) (s : State) : List String → State × Option Fault
  | [] => (s, none)
  | id :: rest =>
    match work s id (cs id) with
    | (s, none) => callPlain cs s rest
    | failed => failed

/-- How many rounds the deferred callbacks need. -/
def roundBound (cs : Callbacks) (ids : List String) : Nat :=
  ids.foldl (fun n id => max n (((cs id).deferred.getD 0) + 1)) 0

/-- Calls the plain callbacks, then all deferred ones together. -/
def emitAsync (cs : Callbacks) (s : State) (event : String) (names : List String) :
    State × Option Fault :=
  let ids := s.registry.listeners event
  let deferred := ids.filter fun id => (cs id).deferred.isSome
  if names.any reservedNames.contains then (s, some .reservedName)
  else
    match callPlain cs s (ids.filter fun id => (cs id).deferred.isNone) with
    | (s, none) => rounds cs (roundBound cs deferred) s (deferred.map (⟨·, none⟩))
    | failed => failed

end Ostinato.Emitter
