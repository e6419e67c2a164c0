import Ostinato.Binary64

/-!
# Timers

What is to happen at given times, in a heap with an earliest on top: none is earlier than the one
above it, and the two below the one at `i` stand at `2 * i + 1` and `2 * i + 2`. Of timers for the
same time none has precedence; which of them comes first is up to the heap.
-/

namespace Ostinato.Live

abbrev Timers (α : Type) := Array (Binary64 × α)

namespace Timers

variable {α : Type}

def isBefore (ts : Timers α) (i j : Nat) : Bool :=
  match ts[i]?, ts[j]? with
  | some a, some b => a.1.lt b.1
  | _, _ => false

/-- Moves a timer up while it is earlier than the one above it. -/
def rise : Nat → Nat → Timers α → Timers α
  | 0, _, ts => ts
  | fuel + 1, i, ts =>
    let above := (i - 1) / 2
    if 0 < i && ts.isBefore i above then rise fuel above (ts.swapIfInBounds i above) else ts

/-- Moves a timer down to the end, past the earlier of the two below it or else the second, and then
up to its place. -/
def settle : Nat → Nat → Timers α → Timers α
  | 0, _, ts => ts
  | fuel + 1, i, ts =>
    let first := 2 * i + 1
    let below := if first + 1 < ts.size && !ts.isBefore first (first + 1) then first + 1 else first
    if first < ts.size then settle fuel below (ts.swapIfInBounds i below)
    else rise ts.size i ts

def add (ts : Timers α) (time : Binary64) (a : α) : Timers α :=
  rise (ts.size + 1) ts.size (ts.push (time, a))

def earliest? (ts : Timers α) : Option (Binary64 × α) :=
  ts[0]?

def dropEarliest (ts : Timers α) : Timers α :=
  let rest := (ts.swapIfInBounds 0 (ts.size - 1)).pop
  settle rest.size 0 rest

end Timers

end Ostinato.Live
