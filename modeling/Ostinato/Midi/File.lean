import Ostinato.Binary64.Log
import Ostinato.Journal
import Ostinato.Midi.Message

/-!
# MIDI files

A recording is written as a file of one track at 480 ticks a beat and a fixed tempo of 120 beats a
minute. Times are virtual seconds, so the program's own tempo changes show in the tick positions
only.
-/

namespace Ostinato.Midi

inductive TrackItem where
  | tempo (microsecondsPerBeat : Nat)
  | timeSignature (numerator exponent : Nat)
  | message (m : Message)
  deriving Repr, DecidableEq

structure Track where
  items : List (Nat × TrackItem)
  deriving Repr, DecidableEq

def ticksPerBeat : Nat := 480

/-- The tempo of 120 beats a minute. -/
def microsecondsPerBeat : Nat := 500000

def secondsPerTick : Binary64 :=
  Binary64.ofDecimal false microsecondsPerBeat 0 * Binary64.ofDecimal false 1 (-6) /
    Binary64.ofDecimal false ticksPerBeat 0

def tickAt (time : Binary64) : Except MidiFault Int :=
  match (time / secondsPerTick).roundToInt with
  | .ok n => .ok n
  | .error o => .error (.overflow o)

/-- Events in order of time; those of one time keep their order. -/
def byTime (events : List Event) : List Event :=
  events.mergeSort fun a b => !b.time.lt a.time

/-- The items of events in order of time, the last one written being at `last`. -/
def itemsFrom (last : Int) : List Event → Except MidiFault (List (Nat × TrackItem))
  | [] => .ok []
  | e :: rest =>
    match tickAt e.time with
    | .error f => .error f
    | .ok tick =>
      match Message.ofEvent e with
      | .error f => .error f
      | .ok m =>
        match itemsFrom (max last tick) rest with
        | .error f => .error f
        | .ok items => .ok (((tick - last).toNat, .message m) :: items)

/-- A time signature: beats up to 255, and a unit whose binary logarithm is whole. -/
def signatureItem (numerator denominator : Int) : Except MidiFault TrackItem :=
  if ¬(0 ≤ numerator ∧ numerator ≤ 255) then .error (.metaField 0 255)
  else if ¬(1 ≤ denominator ∧ denominator ≤ Int.pow 2 255) then
    .error (.metaField 1 (Nat.pow 2 255))
  else
    match (Binary64.log2 denominator.toNat).natural? with
    | some exponent => .ok (.timeSignature numerator.toNat exponent)
    | none => .error .denominator

def track (events : List Event) (signature : Option (Int × Int)) : Except MidiFault Track := do
  let head : List (Nat × TrackItem) := [(0, .tempo microsecondsPerBeat)]
  let head ← match signature with
    | none => .ok head
    | some (n, d) => (signatureItem n d).map fun item => head ++ [(0, item)]
  let items ← itemsFrom 0 (byTime events)
  .ok ⟨head ++ items⟩

/-! ## Bytes -/

/-- The lowest `count` bytes of a number, the lowest first. -/
def littleEndian : Nat → Nat → List Nat
  | 0, _ => []
  | count + 1, n => n % 256 :: littleEndian count (n / 256)

/-- The lowest `count` bytes of a number, the highest first. -/
def bigEndian (count n : Nat) : List Nat :=
  (littleEndian count n).reverse

/-- The groups of seven bits above the lowest one, each with its high bit set. -/
def highGroups (n : Nat) : List Nat :=
  if n = 0 then [] else highGroups (n / 128) ++ [128 + n % 128]
termination_by n
decreasing_by exact Nat.div_lt_self (by omega) (by omega)

/-- A variable-length quantity: groups of seven bits, all but the last with the high bit set. -/
def variableLength (n : Nat) : List Nat :=
  highGroups (n / 128) ++ [n % 128]

def metaMessage (kind : Nat) (data : List Nat) : List Nat :=
  0xff :: kind :: (variableLength data.length ++ data)

/-- The bytes of an item and the status that the next message may leave out: a channel message
with the status of the one before is written without it, and a meta message ends that. -/
def itemBytes (running : Option Nat) : TrackItem → List Nat × Option Nat
  | .tempo t => (metaMessage 0x51 (bigEndian 3 t), none)
  | .timeSignature n e => (metaMessage 0x58 [n, e, 24, 8], none)
  | .message m =>
    (if running = some m.status then m.data else m.bytes, some m.status)

def itemsBytes (running : Option Nat) : List (Nat × TrackItem) → List Nat
  | [] => []
  | (delta, item) :: rest =>
    let (bytes, running) := itemBytes running item
    variableLength delta ++ bytes ++ itemsBytes running rest

/-- The end of a track, right after its last item. -/
def endOfTrack : List Nat :=
  variableLength 0 ++ metaMessage 0x2f []

/-- A chunk: its four-letter name, the length of its data, and the data. -/
def chunk (name : String) (data : List Nat) : List Nat :=
  name.toList.map Char.toNat ++ bigEndian 4 data.length ++ data

def file (t : Track) : List Nat :=
  chunk "MThd" (bigEndian 2 0 ++ bigEndian 2 1 ++ bigEndian 2 ticksPerBeat) ++
  chunk "MTrk" (itemsBytes none t.items ++ endOfTrack)

/-! ## Reports -/

def reportSaving (j : Journal) (count : Nat) (name : String) : Journal :=
  j.add .info .router fun _ =>
    "Saving MIDI recording (" ++ toString count ++ " events) to " ++ name ++ "..."

def reportSaved (j : Journal) (name : String) : Journal :=
  j.add .info .router fun _ => "Saved " ++ name

end Ostinato.Midi
