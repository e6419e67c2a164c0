import Mathlib
import Ostinato.Midi.File

/-!
# Reading MIDI files

A reader of standard MIDI files: chunks, variable-length quantities, channel messages with running
status, which other messages end, meta messages and exclusive ones. It knows nothing of how files are
written here. What it reads from a file is what was written (`readSong_file`): each piece is read back
whatever follows it, and along the items of a track the reader keeps the same running status as the
writer (`readEvents_items`).
-/

namespace Ostinato.Midi

/-! ## The reader -/

/-- Reads a variable-length quantity, of which the groups read so far make up `high`. -/
def readQuantity (high : Nat) : List Nat → Option (Nat × List Nat)
  | [] => none
  | b :: rest =>
    if b < 128 then some (high * 128 + b, rest) else readQuantity (high * 128 + (b - 128)) rest

def readBytes (count : Nat) (bytes : List Nat) : Option (List Nat × List Nat) :=
  if count ≤ bytes.length then some (bytes.take count, bytes.drop count) else none

/-- The number that some bytes stand for, the highest first. -/
def ofBytes (bytes : List Nat) : Nat :=
  bytes.foldl (fun n b => n * 256 + b) 0

/-- What an event of a track holds. -/
inductive Content where
  | note (on : Bool) (channel pitch velocity : Nat)
  /-- Any other channel message. -/
  | voice (status : Nat) (data : List Nat)
  | tempo (microsecondsPerBeat : Nat)
  | timeSignature (numerator denominator clocks thirtySeconds : Nat)
  | endOfTrack
  /-- Any other meta message. -/
  | other (kind : Nat) (data : List Nat)
  | exclusive (data : List Nat)
  deriving Repr, DecidableEq

def Content.ofVoice (status : Nat) (data : List Nat) : Content :=
  match status / 16, data with
  | 8, [pitch, velocity] => note false (status % 16) pitch velocity
  | 9, [pitch, velocity] => note true (status % 16) pitch velocity
  | _, _ => voice status data

def Content.ofMeta (kind : Nat) (data : List Nat) : Content :=
  match kind, data with
  | 0x2f, [] => endOfTrack
  | 0x51, [a, b, c] => tempo (ofBytes [a, b, c])
  | 0x58, [numerator, exponent, clocks, thirtySeconds] =>
    timeSignature numerator (2 ^ exponent) clocks thirtySeconds
  | _, _ => other kind data

/-- How many data bytes follow a status. -/
def dataCount (status : Nat) : Nat :=
  if status / 16 = 12 ∨ status / 16 = 13 then 1 else 2

/-- Reads the data of a channel message. Its status can be left out by the next one. -/
def readVoice (status : Nat) (bytes : List Nat) : Option ((Content × Option Nat) × List Nat) := do
  let (data, rest) ← readBytes (dataCount status) bytes
  if data.all (· < 128) then some ((.ofVoice status data, some status), rest) else none

def readBlock (bytes : List Nat) : Option (List Nat × List Nat) := do
  let (size, rest) ← readQuantity 0 bytes
  readBytes size rest

/-- Reads what an event holds, and the status that the next one may leave out. -/
def readContent (running : Option Nat) : List Nat → Option ((Content × Option Nat) × List Nat)
  | [] => none
  | b :: rest =>
    if b < 128 then
      match running with
      | some status => readVoice status (b :: rest)
      | none => none
    else if b < 0xf0 then readVoice b rest
    else if b = 0xff then
      match rest with
      | kind :: rest => do
        let (data, rest) ← readBlock rest
        some ((.ofMeta kind data, none), rest)
      | [] => none
    else if b = 0xf0 ∨ b = 0xf7 then do
      let (data, rest) ← readBlock rest
      some ((.exclusive data, none), rest)
    else none

/-- Reads up to `fuel` events, each after the ticks since the one before. The end of the track has to
be the last of them, and nothing may follow it. -/
def readEvents : Nat → Option Nat → List Nat → Option (List (Nat × Content))
  | 0, _, _ => none
  | fuel + 1, running, bytes => do
    let (delta, rest) ← readQuantity 0 bytes
    let ((content, running), rest) ← readContent running rest
    if content = .endOfTrack then
      if rest = [] then some [(delta, content)] else none
    else
      let later ← readEvents fuel running rest
      some ((delta, content) :: later)

def readChunk (name : String) (bytes : List Nat) : Option (List Nat × List Nat) := do
  let (letters, rest) ← readBytes 4 bytes
  if letters = name.toList.map Char.toNat then
    let (size, rest) ← readBytes 4 rest
    readBytes (ofBytes size) rest
  else none

/-- Reads some tracks. No track has more events than bytes. -/
def readTracks : Nat → List Nat → Option (List (List (Nat × Content)) × List Nat)
  | 0, bytes => some ([], bytes)
  | count + 1, bytes => do
    let (data, rest) ← readChunk "MTrk" bytes
    let track ← readEvents data.length none data
    let (tracks, rest) ← readTracks count rest
    some (track :: tracks, rest)

/-- What a file holds. -/
structure Song where
  format : Nat
  ticksPerBeat : Nat
  tracks : List (List (Nat × Content))
  deriving Repr, DecidableEq

def readSong (bytes : List Nat) : Option (Song × List Nat) := do
  let (header, rest) ← readChunk "MThd" bytes
  let (format, header) ← readBytes 2 header
  let (count, header) ← readBytes 2 header
  let (division, _) ← readBytes 2 header
  if ofBytes division < 0x8000 then
    let (tracks, rest) ← readTracks (ofBytes count) rest
    some (⟨ofBytes format, ofBytes division, tracks⟩, rest)
  else none

/-! ## Numbers -/

theorem readBytes_append {data : List Nat} {count : Nat} (h : data.length = count)
    (rest : List Nat) : readBytes count (data ++ rest) = some (data, rest) := by
  subst h
  rw [readBytes, if_pos (by rw [List.length_append]; omega), List.take_left', List.drop_left'] <;> rfl

theorem readQuantity_highGroups (n : Nat) (rest : List Nat) :
    readQuantity 0 (highGroups n ++ rest) = readQuantity n rest := by
  induction n using highGroups.induct generalizing rest with
  | case1 =>
    rw [highGroups, if_pos rfl]
    rfl
  | case2 n hn ih =>
    have hvalue : n / 128 * 128 + (128 + n % 128 - 128) = n := by omega
    rw [highGroups, if_neg hn, List.append_assoc, ih, List.singleton_append, readQuantity,
      if_neg (by omega), hvalue]

theorem readQuantity_variableLength (n : Nat) (rest : List Nat) :
    readQuantity 0 (variableLength n ++ rest) = some (n, rest) := by
  have hvalue : n / 128 * 128 + n % 128 = n := by omega
  rw [variableLength, List.append_assoc, readQuantity_highGroups, List.singleton_append,
    readQuantity, if_pos (by omega), hvalue]

theorem readBlock_variableLength (data rest : List Nat) :
    readBlock (variableLength data.length ++ data ++ rest) = some (data, rest) := by
  rw [readBlock, List.append_assoc, readQuantity_variableLength]
  exact readBytes_append rfl rest

@[simp] theorem bigEndian_length (count n : Nat) : (bigEndian count n).length = count := by
  rw [bigEndian, List.length_reverse]
  induction count generalizing n with
  | zero => rfl
  | succ count ih => rw [littleEndian, List.length_cons, ih]

theorem ofBytes_bigEndian {count n : Nat} (h : n < 256 ^ count) :
    ofBytes (bigEndian count n) = n := by
  induction count generalizing n with
  | zero =>
    rw [Nat.pow_zero] at h
    obtain rfl : n = 0 := by omega
    rfl
  | succ count ih =>
    rw [Nat.pow_succ] at h
    have hdigits : bigEndian (count + 1) n = bigEndian count (n / 256) ++ [n % 256] := by
      rw [bigEndian, littleEndian, List.reverse_cons]
      rfl
    have hhigh := ih (n := n / 256) (by omega)
    unfold ofBytes at hhigh ⊢
    rw [hdigits, List.foldl_append, hhigh, List.foldl_cons, List.foldl_nil]
    omega

/-! ## Items -/

/-- Whether a message can be put into bytes. -/
def Message.Fits : Message → Prop
  | noteOn channel pitch velocity | noteOff channel pitch velocity =>
    channel < 16 ∧ pitch < 128 ∧ velocity < 128
  | controlChange channel control value => channel < 16 ∧ control < 128 ∧ value < 128

def TrackItem.Fits : TrackItem → Prop
  | tempo microseconds => microseconds < 256 ^ 3
  | timeSignature numerator exponent => numerator < 256 ∧ exponent < 256
  | message m => m.Fits

def Message.content : Message → Content
  | noteOn channel pitch velocity => .note true channel pitch velocity
  | noteOff channel pitch velocity => .note false channel pitch velocity
  | controlChange channel control value => .voice (0xb0 + channel) [control, value]

/-- What is read of an item. A beat has 24 clocks and eight thirty-seconds. -/
def TrackItem.content : TrackItem → Content
  | tempo microseconds => .tempo microseconds
  | timeSignature numerator exponent => .timeSignature numerator (2 ^ exponent) 24 8
  | message m => m.content

theorem readContent_meta (running : Option Nat) (kind : Nat) (data rest : List Nat) :
    readContent running (metaMessage kind data ++ rest) = some ((.ofMeta kind data, none), rest) := by
  show readContent running (0xff :: kind :: (variableLength data.length ++ data ++ rest)) = _
  unfold readContent
  dsimp only
  rw [if_neg (by decide), if_neg (by decide), if_pos rfl, readBlock_variableLength]
  rfl

section
variable {m : Message} (h : m.Fits)
include h

theorem Message.status_range : 128 ≤ m.status ∧ m.status < 0xf0 := by
  cases m <;> obtain ⟨hc, -⟩ := h <;> unfold status <;> dsimp only <;> omega

theorem Message.readVoice_data (rest : List Nat) :
    readVoice m.status (m.data ++ rest) = some ((m.content, some m.status), rest) := by
  have hcount : m.data.length = dataCount m.status := by
    cases m <;> obtain ⟨hc, -⟩ := h <;> unfold dataCount status <;> dsimp only <;>
      rw [if_neg (by omega)] <;> rfl
  have hdata : m.data.all (· < 128) = true := by
    cases m <;> obtain ⟨-, hd, hv⟩ := h <;> simp [data, hd, hv]
  have hcontent : Content.ofVoice m.status m.data = m.content := by
    cases m with
    | noteOff ch n v =>
      obtain ⟨hc, -⟩ := h
      have hkind : (0x80 + ch) / 16 = 8 := by omega
      have hchannel : (0x80 + ch) % 16 = ch := by omega
      simp only [Content.ofVoice, status, data, content, hkind, hchannel]
    | noteOn ch n v =>
      obtain ⟨hc, -⟩ := h
      have hkind : (0x90 + ch) / 16 = 9 := by omega
      have hchannel : (0x90 + ch) % 16 = ch := by omega
      simp only [Content.ofVoice, status, data, content, hkind, hchannel]
    | controlChange ch c v =>
      obtain ⟨hc, -⟩ := h
      have hkind : (0xb0 + ch) / 16 = 11 := by omega
      simp only [Content.ofVoice, status, data, content, hkind]
  unfold readVoice
  rw [readBytes_append hcount]
  show (if m.data.all (· < 128) then _ else none) = _
  rw [if_pos hdata, hcontent]

theorem readContent_message (running : Option Nat) (rest : List Nat) :
    readContent running ((itemBytes running (.message m)).1 ++ rest) =
      some ((m.content, some m.status), rest) := by
  obtain ⟨hlow, hhigh⟩ := m.status_range h
  have hread := m.readVoice_data h rest
  unfold itemBytes
  dsimp only
  split
  · rename_i hrunning
    subst hrunning
    have hfirst : ∃ b tail, m.data = b :: tail ∧ b < 128 := by
      cases m <;> obtain ⟨-, hd, -⟩ := h <;> exact ⟨_, _, rfl, hd⟩
    obtain ⟨b, tail, hdata, hb⟩ := hfirst
    rw [hdata] at hread ⊢
    rw [List.cons_append]
    unfold readContent
    dsimp only
    rw [if_pos hb]
    exact hread
  · rw [Message.bytes, List.cons_append]
    unfold readContent
    dsimp only
    rw [if_neg (by omega), if_pos hhigh]
    exact hread

end

/-- An item is read with the running status that was kept when it was written. -/
theorem readContent_item {item : TrackItem} (h : item.Fits) (running : Option Nat)
    (rest : List Nat) :
    readContent running ((itemBytes running item).1 ++ rest) =
      some ((item.content, (itemBytes running item).2), rest) := by
  cases item with
  | tempo t =>
    have hread := readContent_meta running 0x51 (bigEndian 3 t) rest
    have hnumber := ofBytes_bigEndian h
    rcases hbytes : bigEndian 3 t with _ | ⟨a, _ | ⟨b, _ | ⟨c, _ | _⟩⟩⟩
    case cons.cons.cons.nil =>
      rw [hbytes] at hread hnumber
      unfold itemBytes TrackItem.content
      dsimp only
      rw [hbytes, hread]
      show some ((Content.tempo (ofBytes [a, b, c]), none), rest) = _
      rw [hnumber]
    all_goals
      have hlength := bigEndian_length 3 t
      rw [hbytes] at hlength
      cases hlength
  | timeSignature n e => exact readContent_meta running 0x58 [n, e, 24, 8] rest
  | message m => exact readContent_message h running rest

theorem TrackItem.content_ne (item : TrackItem) : item.content ≠ .endOfTrack := by
  cases item with
  | message m => cases m <;> exact Content.noConfusion
  | _ => exact Content.noConfusion

/-- The events of a track are read in step with the items that were written. -/
theorem readEvents_items {items : List (Nat × TrackItem)} (h : ∀ i ∈ items, i.2.Fits)
    (running : Option Nat) {fuel : Nat} (hfuel : items.length < fuel) :
    readEvents fuel running (itemsBytes running items ++ endOfTrack) =
      some (items.map (fun i => (i.1, i.2.content)) ++ [(0, .endOfTrack)]) := by
  induction items generalizing running fuel with
  | nil =>
    cases fuel with
    | zero => cases hfuel
    | succ fuel =>
      have hend := readContent_meta running 0x2f [] []
      rw [List.append_nil] at hend
      show readEvents (fuel + 1) running (variableLength 0 ++ metaMessage 0x2f []) = _
      unfold readEvents
      rw [readQuantity_variableLength]
      show (readContent running (metaMessage 0x2f [])).bind _ = _
      rw [hend]
      rfl
  | cons i items ih =>
    obtain ⟨delta, item⟩ := i
    cases fuel with
    | zero => cases hfuel
    | succ fuel =>
      have hitem : item.Fits := h (delta, item) List.mem_cons_self
      have hread := readContent_item hitem running
        (itemsBytes (itemBytes running item).2 items ++ endOfTrack)
      have hlater := ih (fun i hi => h i (List.mem_cons_of_mem _ hi)) (itemBytes running item).2
        (Nat.lt_of_succ_lt_succ hfuel)
      show readEvents (fuel + 1) running (variableLength delta ++ (itemBytes running item).1 ++
        itemsBytes (itemBytes running item).2 items ++ endOfTrack) = _
      rw [List.append_assoc, List.append_assoc]
      unfold readEvents
      rw [readQuantity_variableLength]
      show (readContent running _).bind _ = _
      rw [hread]
      show (if item.content = .endOfTrack then _ else _) = _
      rw [if_neg item.content_ne, hlater]
      rfl

/-! ## Files -/

theorem variableLength_pos (n : Nat) : 0 < (variableLength n).length := by
  rw [variableLength, List.length_append, List.length_singleton]
  omega

theorem length_le_itemsBytes (running : Option Nat) (items : List (Nat × TrackItem)) :
    items.length ≤ (itemsBytes running items).length := by
  induction items generalizing running with
  | nil => exact Nat.zero_le _
  | cons i items ih =>
    obtain ⟨delta, item⟩ := i
    have hdelta := variableLength_pos delta
    have hrest := ih (itemBytes running item).2
    show items.length + 1 ≤ (variableLength delta ++ (itemBytes running item).1 ++
      itemsBytes (itemBytes running item).2 items).length
    rw [List.length_append, List.length_append]
    omega

theorem readChunk_chunk {name : String} (hname : name.toList.length = 4) {data : List Nat}
    (hdata : data.length < 256 ^ 4) (rest : List Nat) :
    readChunk name (chunk name data ++ rest) = some (data, rest) := by
  unfold readChunk chunk
  rw [List.append_assoc, List.append_assoc,
    readBytes_append (by rw [List.length_map, hname])]
  show (if _ = _ then _ else _) = _
  rw [if_pos rfl, readBytes_append (bigEndian_length 4 _)]
  show readBytes (ofBytes _) _ = _
  rw [ofBytes_bigEndian hdata]
  exact readBytes_append rfl rest

def Track.bytes (t : Track) : List Nat := itemsBytes none t.items ++ endOfTrack

/-- **A file is read as it was written.** Nothing is left over, and what is read has the items of the
track and then its end. -/
theorem readSong_file {t : Track} (h : ∀ i ∈ t.items, i.2.Fits) (hsize : t.bytes.length < 2 ^ 32) :
    readSong (file t) = some (⟨0, ticksPerBeat,
      [t.items.map (fun i => (i.1, i.2.content)) ++ [(0, .endOfTrack)]]⟩, []) := by
  have hfuel : t.items.length < t.bytes.length := by
    have hitems := length_le_itemsBytes none t.items
    have hend := variableLength_pos 0
    rw [Track.bytes, endOfTrack, List.length_append, List.length_append]
    omega
  have hevents := readEvents_items h none hfuel
  have htrack : readChunk "MTrk" (chunk "MTrk" t.bytes ++ []) = some (t.bytes, []) :=
    readChunk_chunk rfl hsize []
  rw [List.append_nil] at htrack
  have hnumber (n : Nat) (rest : List Nat) :
      readBytes 2 (bigEndian 2 n ++ rest) = some (bigEndian 2 n, rest) :=
    readBytes_append (bigEndian_length 2 n) rest
  have hlast := hnumber ticksPerBeat []
  rw [List.append_nil] at hlast
  have hone : readTracks 1 (chunk "MTrk" t.bytes) =
      some ([t.items.map (fun i => (i.1, i.2.content)) ++ [(0, .endOfTrack)]], []) := by
    unfold readTracks
    simp only [Option.bind_eq_bind, htrack, Option.bind_some]
    show (readEvents t.bytes.length none (itemsBytes none t.items ++ endOfTrack)).bind _ = _
    rw [hevents]
    rfl
  have hheader (rest : List Nat) :
      readChunk "MThd" (chunk "MThd"
        (bigEndian 2 0 ++ (bigEndian 2 1 ++ bigEndian 2 ticksPerBeat)) ++ rest) =
          some (bigEndian 2 0 ++ (bigEndian 2 1 ++ bigEndian 2 ticksPerBeat), rest) :=
    readChunk_chunk rfl (by simp) rest
  unfold readSong file
  simp only [Option.bind_eq_bind, List.append_assoc, hheader, Option.bind_some, hnumber, hlast]
  rw [ofBytes_bigEndian (by decide), ofBytes_bigEndian (by decide), ofBytes_bigEndian (by decide),
    if_pos (by decide)]
  show (readTracks 1 (chunk "MTrk" t.bytes)).bind _ = _
  rw [hone]
  rfl

/-! ## Bytes -/

def AreBytes (bytes : List Nat) : Prop := ∀ b ∈ bytes, b < 256

theorem AreBytes.append {xs ys : List Nat} (hx : AreBytes xs) (hy : AreBytes ys) :
    AreBytes (xs ++ ys) := by
  intro b hb
  rcases List.mem_append.mp hb with hb | hb
  · exact hx b hb
  · exact hy b hb

theorem AreBytes.cons {b : Nat} {bytes : List Nat} (hb : b < 256) (h : AreBytes bytes) :
    AreBytes (b :: bytes) := List.forall_mem_cons.mpr ⟨hb, h⟩

theorem AreBytes.nil : AreBytes [] := by simp [AreBytes]

theorem variableLength_bytes (n : Nat) : AreBytes (variableLength n) := by
  have hgroups (n : Nat) : AreBytes (highGroups n) := by
    induction n using highGroups.induct with
    | case1 =>
      rw [highGroups, if_pos rfl]
      exact .nil
    | case2 n hn ih =>
      rw [highGroups, if_neg hn]
      exact ih.append (.cons (by omega) .nil)
  exact (hgroups (n / 128)).append (.cons (by omega) .nil)

theorem bigEndian_bytes (count n : Nat) : AreBytes (bigEndian count n) := by
  have hlittle (count n : Nat) : AreBytes (littleEndian count n) := by
    induction count generalizing n with
    | zero => exact .nil
    | succ count ih => exact .cons (Nat.mod_lt n (by decide)) (ih (n / 256))
  intro b hb
  exact hlittle count n b (List.mem_reverse.mp hb)

theorem metaMessage_bytes {kind : Nat} (hk : kind < 256) {data : List Nat} (hd : AreBytes data) :
    AreBytes (metaMessage kind data) :=
  .cons (by decide) (.cons hk ((variableLength_bytes _).append hd))

theorem Message.data_bytes {m : Message} (h : m.Fits) : AreBytes m.data := by
  cases m <;> obtain ⟨-, hd, hv⟩ := h <;>
    exact .cons (by omega) (.cons (by omega) .nil)

theorem itemBytes_bytes {item : TrackItem} (h : item.Fits) (running : Option Nat) :
    AreBytes (itemBytes running item).1 := by
  cases item with
  | tempo t => exact metaMessage_bytes (by decide) (bigEndian_bytes 3 t)
  | timeSignature n e =>
    exact metaMessage_bytes (by decide)
      (.cons h.1 (.cons h.2 (.cons (by decide) (.cons (by decide) .nil))))
  | message m =>
    have hdata := m.data_bytes h
    have hstatus := (m.status_range h).2
    unfold itemBytes
    dsimp only
    split
    · exact hdata
    · exact .cons (by omega) hdata

theorem itemsBytes_bytes {items : List (Nat × TrackItem)} (h : ∀ i ∈ items, i.2.Fits)
    (running : Option Nat) : AreBytes (itemsBytes running items) := by
  induction items generalizing running with
  | nil => exact .nil
  | cons i items ih =>
    have hitem := itemBytes_bytes (h i List.mem_cons_self) running
    have hrest := ih (fun j hj => h j (List.mem_cons_of_mem i hj)) (itemBytes running i.2).2
    exact ((variableLength_bytes i.1).append hitem).append hrest

theorem file_bytes {t : Track} (h : ∀ i ∈ t.items, i.2.Fits) : AreBytes (file t) := by
  have hend : AreBytes endOfTrack :=
    (variableLength_bytes 0).append (metaMessage_bytes (by decide) .nil)
  have hheader : AreBytes (bigEndian 2 0 ++ bigEndian 2 1 ++ bigEndian 2 ticksPerBeat) :=
    ((bigEndian_bytes 2 0).append (bigEndian_bytes 2 1)).append (bigEndian_bytes 2 ticksPerBeat)
  have hchunk {name : String} (hname : AreBytes (name.toList.map Char.toNat)) {data : List Nat}
      (hdata : AreBytes data) : AreBytes (chunk name data) :=
    (hname.append (bigEndian_bytes 4 _)).append hdata
  have hname (name : String) (h : (name.toList.map Char.toNat).all (· < 256) = true) :
      AreBytes (name.toList.map Char.toNat) := by
    intro b hb
    simpa using List.all_eq_true.mp h b hb
  exact (hchunk (hname "MThd" (by decide)) hheader).append
    (hchunk (hname "MTrk" (by decide)) ((itemsBytes_bytes h none).append hend))

end Ostinato.Midi
