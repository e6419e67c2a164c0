import Ostinato.Event
import Ostinato.Pitch

/-!
# MIDI messages

Channel messages as bytes. A message can only be built from a channel of 0 to 15 and data of 0 to
127.
-/

namespace Ostinato.Midi

inductive MidiFault where
  | channel
  | data
  | metaField (least greatest : Nat)
  | denominator
  /-- The time signature is no pair of numbers. -/
  | signatureKind
  | overflow (fault : Overflow)
  deriving Repr, DecidableEq

def MidiFault.message : MidiFault → String
  | channel => "channel must be in range 0..15"
  | data => "data byte must be in range 0..127"
  | metaField least greatest =>
    "attribute must be in range " ++ toString least ++ ".." ++ toString greatest
  | denominator => "denominator must be a power of 2"
  | signatureKind => "the time signature is no pair of numbers"
  | overflow f => f.message

/-- The channel messages that are sent. -/
inductive Message where
  | noteOn (channel note velocity : Nat)
  | noteOff (channel note velocity : Nat)
  | controlChange (channel control value : Nat)
  deriving Repr, DecidableEq

namespace Message

def status : Message → Nat
  | noteOff ch _ _ => 0x80 + ch
  | noteOn ch _ _ => 0x90 + ch
  | controlChange ch _ _ => 0xb0 + ch

def data : Message → List Nat
  | noteOff _ n v => [n, v]
  | noteOn _ n v => [n, v]
  | controlChange _ c v => [c, v]

def bytes (m : Message) : List Nat :=
  m.status :: m.data

def ofEvent (e : Event) : Except MidiFault Message :=
  if ¬(0 ≤ e.channel ∧ e.channel < channelCount) then .error .channel
  else if ¬(0 ≤ e.pitch ∧ e.pitch ≤ maxNote) then .error .data
  else if ¬(0 ≤ e.velocity ∧ e.velocity ≤ maxVelocity) then .error .data
  else
    let ch := e.channel.toNat
    let n := e.pitch.toNat
    let v := e.velocity.toNat
    .ok (if e.on then noteOn ch n v else noteOff ch n v)

end Message

/-- Silences a device: on every channel all notes off, then all sound off. -/
def silenceAll : List Message :=
  (List.range 16).flatMap fun ch => [.controlChange ch 123 0, .controlChange ch 120 0]

end Ostinato.Midi
