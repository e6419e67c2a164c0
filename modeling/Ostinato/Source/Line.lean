import Ostinato.Source.Fault
import Ostinato.Source.Token

/-!
# One line, one statement

A reader takes the tokens that are left on the line and gives a value with the tokens left after
it, or a failure at a token or at the end of the line. The statement forms are put together from
the readers of their parts; each form is given at its reader.
-/

namespace Ostinato.Source

/-- A fault at a token, or at the end of the line when there is none. -/
structure Failure where
  fault : Fault
  token : Option Token
  deriving Repr, DecidableEq

abbrev Reader (α : Type) := List Token → Except Failure (α × List Token)

def fail (fault : Fault) (token : Token) : Except Failure α :=
  .error ⟨fault, some token⟩

/-! ## Parts -/

def any (what : String) : Reader Token
  | [] => .error ⟨.lineEnded what, none⟩
  | t :: rest => .ok (t, rest)

def word (what : String) : Reader Token := fun ts => do
  let (t, rest) ← any what ts
  if t.kind = .word then .ok (t, rest) else fail (.expected what t.text) t

def punct (symbol : String) : Reader Token := fun ts => do
  let what := Text.quoted symbol
  let (t, rest) ← any what ts
  if t.isPunct symbol then .ok (t, rest) else fail (.expected what t.text) t

/-- The number of an integer token. -/
def number (t : Token) : Except Failure Int :=
  if t.digits.length ≤ Text.digitLimit then .ok t.value
  else fail (.tooManyDigits t.digits.length) t

def int (what : String) (least : Int) (greatest : Option Int) : Reader (Int × Token) := fun ts => do
  let (t, rest) ← any what ts
  if t.kind ≠ .int then fail (.expectedInteger what t.text) t
  else do
    let n ← number t
    let tooLarge := match greatest with
      | some g => decide (g < n)
      | none => false
    if n < least || tooLarge then fail (.outOfRange what n least greatest) t
    else .ok ((n, t), rest)

def upper (s : String) : String :=
  String.ofList (s.toList.map Char.toUpper)

def lower (s : String) : String :=
  String.ofList (s.toList.map Char.toLower)

def isIdentifier (s : String) : Bool :=
  match s.toList with
  | [] => false
  | c :: rest => isWordStart c && rest.all fun d => d.isAlphanum || d == '_'

def identifier (what : String) : Reader Token := fun ts => do
  let (t, rest) ← word what ts
  if isIdentifier t.text then .ok (t, rest) else fail (.malformedName what t.text) t

def atEnd : List Token → Except Failure Unit
  | [] => .ok ()
  | t :: _ => fail (.trailing t.text) t

/-- A channel: 1 to 16, or 0 to 15 with the letter `r` right after it. -/
def channel : Reader Int := fun ts => do
  let ((n, t), rest) ← int "channel" 0 none ts
  let plain : Except Failure (Int × List Token) :=
    if 1 ≤ n ∧ n ≤ channelCount then .ok (n - 1, rest) else fail (.channelOutOfRange n) t
  match rest with
  | suffix :: rest' =>
    if suffix.kind = .word ∧ suffix.column = t.endColumn then
      if lower suffix.text ≠ "r" then fail (.malformedChannel (t.text ++ suffix.text)) t
      else if n < channelCount then .ok (n, rest')
      else fail (.rawChannelOutOfRange n) t
    else plain
  | [] => plain

def pitch : Reader (Int × Token) := fun ts => do
  let (t, rest) ← any "pitch" ts
  match t.kind with
  | .int => do
    let n ← number t
    if 0 ≤ n ∧ n ≤ maxNote then .ok ((n, t), rest) else fail (.noteOutOfRange n) t
  | .punct => fail (.expected "pitch" t.text) t
  | .word =>
    match Pitch.parse t.text with
    | .ok n => .ok ((n, t), rest)
    | .error f => fail (.pitch f) t

def chordKind : Reader ChordKind
  | [] => .ok (.raw, [])
  | colon :: ts =>
    if colon.isPunct ":" then do
      let (suffix, rest) ← any "chord kind" ts
      if suffix.kind = .punct then fail (.expected "chord kind" suffix.text) suffix
      else
        match ChordKind.parse suffix.text with
        | .ok kind => .ok (kind, rest)
        | .error f => fail (.chord f) suffix
    else .ok (.raw, colon :: ts)

/-- A pitch, with a colon and a chord kind if need be. All notes of the chord exist. -/
def chord : Reader Chord := fun ts => do
  let ((root, start), rest) ← pitch ts
  let (kind, rest) ← chordKind rest
  let c : Chord := ⟨root, kind⟩
  match c.notes with
  | .ok _ => .ok (c, rest)
  | .error f => fail (.chord f) start

def duration (head : Token) : Reader Wait := fun ts => do
  let ((amount, _), rest) ← int "wait length" 0 none ts
  let (t, rest) ← word "time unit" rest
  match TimeUnit.ofWord? (lower t.text) with
  | some u => .ok (⟨amount, u, head.pos⟩, rest)
  | none => fail (.unknownUnit t.text) t

/-! ## Statements -/

/-- `SETBPM <bpm>, <ticks per beat>` -/
def setTempo (head : Token) : Reader Statement := fun ts => do
  let ((bpm, _), rest) ← int "bpm" 1 none ts
  let (_, rest) ← punct "," rest
  let ((ticksPerBeat, _), rest) ← int "ticks per beat" 1 none rest
  .ok (.tempo ⟨bpm, ticksPerBeat, head.pos⟩, rest)

/-- The output of a note: nothing, or a comma, `OUTPUT`, an equals sign and a name. -/
def outputClause : Reader (Option String)
  | [] => .ok (none, [])
  | ts => do
    let (_, rest) ← punct "," ts
    let (clause, rest) ← word "OUTPUT" rest
    if upper clause.text ≠ "OUTPUT" then fail (.expected "OUTPUT" clause.text) clause
    else do
      let (_, rest) ← punct "=" rest
      let (name, rest) ← identifier "output name" rest
      .ok (some name.text, rest)

/-- `SEND NOTEON|NOTEOFF <channel>, <pitch>, <velocity>[, OUTPUT = <name>]` -/
def sendNote (head : Token) : Reader Statement := fun ts => do
  let (kind, rest) ← word "NOTEON or NOTEOFF" ts
  if upper kind.text ≠ "NOTEON" ∧ upper kind.text ≠ "NOTEOFF" then
    fail (.unknownMessage kind.text) kind
  else do
    let (ch, rest) ← channel rest
    let (_, rest) ← punct "," rest
    let ((note, _), rest) ← pitch rest
    let (_, rest) ← punct "," rest
    let ((velocity, _), rest) ← int "velocity" 0 (some maxVelocity) rest
    let (output, rest) ← outputClause rest
    .ok (.send ⟨upper kind.text == "NOTEON", ch, note, velocity, output, head.pos⟩, rest)

/-- `WAIT <n> <unit>` -/
def waitLine (head : Token) : Reader Statement := fun ts => do
  let (w, rest) ← duration head ts
  .ok (.wait w, rest)

/-- `JUMP <label> [<count>]` -/
def jumpLine (head : Token) : Reader Statement := fun ts => do
  let (label, rest) ← identifier "label name" ts
  match rest with
  | [] => .ok (.jump ⟨label.text, none, none, head.pos⟩, [])
  | rest => do
    let ((count, _), rest) ← int "repeat count" 0 none rest
    .ok (.jump ⟨label.text, some count, none, head.pos⟩, rest)

/-- The chords after the first, each behind a comma. `n` bounds their count. -/
def moreChords : Nat → Reader (List Chord)
  | 0, ts => .ok ([], ts)
  | _ + 1, [] => .ok ([], [])
  | n + 1, t :: rest =>
    if t.isPunct "," then do
      let (c, rest) ← chord rest
      let (cs, rest) ← moreChords n rest
      .ok (c :: cs, rest)
    else .ok ([], t :: rest)

inductive Modifier where
  | duration
  | velocity
  | channel
  | output
  deriving Repr, DecidableEq

def Modifier.ofWord? (word : String) : Option Modifier :=
  match word with
  | "FOR" => some duration
  | "VEL" | "VELOCITY" => some velocity
  | "CHANNEL" => some channel
  | "ON" => some output
  | _ => none

/-- Whether a press line has the modifier's field already. -/
def Modifier.isSet (m : Modifier) (p : Play) : Bool :=
  match m with
  | duration => p.duration.isSome
  | velocity => p.velocity.isSome
  | channel => p.channel.isSome
  | output => p.output.isSome

/-- Reads the value behind a modifier word into the press line. -/
def Modifier.read (m : Modifier) (t : Token) (p : Play) : Reader Play := fun ts =>
  match m with
  | duration => do
    let (w, rest) ← Source.duration t ts
    .ok ({ p with duration := some w }, rest)
  | velocity => do
    let (_, rest) ← punct "=" ts
    let ((v, _), rest) ← int "velocity" 1 (some maxVelocity) rest
    .ok ({ p with velocity := some v }, rest)
  | channel => do
    let (ch, rest) ← Source.channel ts
    .ok ({ p with channel := some ch }, rest)
  | output => do
    let (name, rest) ← identifier "output name" ts
    .ok ({ p with output := some name.text }, rest)

def modifiers : Nat → Play → Reader Play
  | 0, p, ts => .ok (p, ts)
  | _ + 1, p, [] => .ok (p, [])
  | n + 1, p, ts => do
    let (t, rest) ← word "FOR, VEL, CHANNEL or ON" ts
    match Modifier.ofWord? (upper t.text) with
    | none => fail (.unknownModifier t.text) t
    | some m =>
      if m.isSet p then fail (.repeatedModifier (upper t.text)) t
      else do
        let (p, rest) ← m.read t p rest
        modifiers n p rest

/-- `PLAY <chord>[, <chord>…] [FOR <n> <unit>] [VEL = <v>] [CHANNEL <channel>] [ON <output>]` -/
def playLine (head : Token) : Reader Statement := fun ts => do
  let (first, rest) ← chord ts
  let (more, rest) ← moreChords rest.length rest
  let (p, rest) ← modifiers rest.length { chords := first :: more, pos := head.pos } rest
  .ok (.play p, rest)

/-- `DEFAULT VELOCITY|CHANNEL|DURATION|OUTPUT <value>` -/
def defaultLine (head : Token) : Reader Statement := fun ts => do
  let (t, rest) ← word "VELOCITY, CHANNEL, DURATION or OUTPUT" ts
  let name := lower t.text
  let made (value : SettingValue) (rest : List Token) : Except Failure (Statement × List Token) :=
    .ok (.setting ⟨name, value, head.pos⟩, rest)
  match name with
  | "velocity" => do
    let ((v, _), rest) ← int "velocity" 1 (some maxVelocity) rest
    made (.number v) rest
  | "channel" => do
    let (ch, rest) ← channel rest
    made (.number ch) rest
  | "duration" => do
    let (w, rest) ← duration t rest
    made (.duration w) rest
  | "output" => do
    let (o, rest) ← identifier "output name" rest
    made (.name o.text) rest
  | _ => fail (.unknownSetting t.text) t

/-- Whether a positive integer has a single binary one. -/
def isPowerOfTwo (n : Int) : Bool :=
  0 < n && Nat.pow 2 n.toNat.log2 == n.toNat

/-- `SIGNATURE <beats per bar>, <beat unit>` -/
def signatureLine (head : Token) : Reader Statement := fun ts => do
  let ((beats, _), rest) ← int "beats per bar" 1 (some 255) ts
  let (_, rest) ← punct "," rest
  let ((unit, t), rest) ← int "beat unit" 1 (some 64) rest
  if isPowerOfTwo unit then
    .ok (.setting ⟨"signature", .pair beats unit, head.pos⟩, rest)
  else fail (.notPowerOfTwo unit) t

/-! ## Lines -/

/-- The words a statement starts with. -/
inductive Keyword where
  | setbpm
  | label
  | loop
  | send
  | play
  | wait
  | jump
  | preset
  | signature
  deriving Repr, DecidableEq

def Keyword.ofWord? (word : String) : Option Keyword :=
  match word with
  | "SETBPM" => some setbpm
  | "LABEL" => some label
  | "LOOP" => some loop
  | "SEND" => some send
  | "PLAY" => some play
  | "WAIT" => some wait
  | "JUMP" => some jump
  | "DEFAULT" => some preset
  | "SIGNATURE" => some signature
  | _ => none

def keyword : Reader (Token × Keyword) := fun ts => do
  let (t, rest) ← word "a keyword" ts
  match Keyword.ofWord? (upper t.text) with
  | some k => .ok ((t, k), rest)
  | none => fail (.unknownKeyword t.text) t

/-- What a line stands for: the head of a block whose body follows, or a whole statement. -/
inductive Line where
  | label (name : String) (pos : Pos)
  | loop (count : Option Int) (pos : Pos)
  | plain (s : Statement)
  deriving Repr

/-- `LABEL <name>:` - the label is placed at its name. -/
def labelHead : Reader Line := fun ts => do
  let (name, rest) ← identifier "label name" ts
  let (_, rest) ← punct ":" rest
  .ok (.label name.text name.pos, rest)

/-- `LOOP [<count>]:` -/
def loopHead (head : Token) : Reader Line := fun ts => do
  let (count, rest) ←
    match ts with
    | t :: _ =>
      if t.kind = .int then do
        let ((n, _), rest) ← int "loop count" 1 none ts
        .ok (some n, rest)
      else .ok (none, ts)
    | [] => .ok (none, ts)
  let (_, rest) ← punct ":" rest
  .ok (.loop count head.pos, rest)

def plain (r : Reader Statement) : Reader Line := fun ts => do
  let (s, rest) ← r ts
  .ok (.plain s, rest)

def form (head : Token) : Keyword → Reader Line
  | .label => labelHead
  | .loop => loopHead head
  | .setbpm => plain (setTempo head)
  | .send => plain (sendNote head)
  | .wait => plain (waitLine head)
  | .play => plain (playLine head)
  | .preset => plain (defaultLine head)
  | .signature => plain (signatureLine head)
  | .jump => plain (jumpLine head)

def line (ts : List Token) : Except Failure Line := do
  let ((head, k), rest) ← keyword ts
  let (l, rest) ← form head k rest
  atEnd rest
  .ok l

/-- The place of a failure on a line that has the given tokens. -/
def Failure.pos (f : Failure) (ts : List Token) : Pos :=
  match f.token with
  | some t => t.pos
  | none => (ts.getLast?.map Token.endPos).getD {}

end Ostinato.Source
