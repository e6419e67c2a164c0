import Ostinato.Proofs.Forest
import Ostinato.Proofs.Grammar

/-!
# What a line of source text can say

The reader bounds every number it takes in, and this is the only place where source text is
bounded. `Statement.InRange` says what it guarantees of a single statement, whatever the body of a
block holds, and `line_ok` that every line which reads stands for such a statement. The bounds are
those of the grammar: each of its relations has one lemma, `…inRange`, with a case for each form.
Besides, no number has more digits than are converted (`Text.IsShort`).
-/

namespace Ostinato

/-- A wait for an amount that is not negative, in a unit that exists. -/
def Wait.InRange (w : Wait) : Prop := 0 ≤ w.amount ∧ ∀ name, w.unit ≠ .unknown name

def Tempo.InRange (t : Tempo) : Prop := 0 < t.bpm ∧ 0 < t.ticksPerBeat

def IsChannel (n : Int) : Prop := 0 ≤ n ∧ n < channelCount

def IsNote (n : Int) : Prop := 0 ≤ n ∧ n ≤ maxNote

def IsVelocity (n : Int) : Prop := 0 ≤ n ∧ n ≤ maxVelocity

def Send.InRange (s : Send) : Prop := IsChannel s.channel ∧ IsNote s.pitch ∧ IsVelocity s.velocity

/-- A press line whose chords have notes and whose other parts are in range where they are given. -/
structure Play.InRange (p : Play) : Prop where
  chords : ∀ c ∈ p.chords, 0 ≤ c.root ∧ ∃ notes, c.notes = .ok notes
  duration : ∀ w, p.duration = some w → w.InRange
  velocity : ∀ v, p.velocity = some v → IsVelocity v
  channel : ∀ c, p.channel = some c → IsChannel c

inductive Setting.InRange : Setting → Prop where
  | velocity {v : Int} {pos : Pos} : IsVelocity v → InRange ⟨"velocity", .number v, pos⟩
  | channel {c : Int} {pos : Pos} : IsChannel c → InRange ⟨"channel", .number c, pos⟩
  | duration {w : Wait} {pos : Pos} : w.InRange → InRange ⟨"duration", .duration w, pos⟩
  | output {name : String} {pos : Pos} : InRange ⟨"output", .name name, pos⟩
  | signature {beats unit : Int} {pos : Pos} : 1 ≤ beats → beats ≤ 255 → 1 ≤ unit → unit ≤ 64 →
      Source.isPowerOfTwo unit = true → InRange ⟨"signature", .pair beats unit, pos⟩

/-- What the reader guarantees of a statement, its body apart. A jump has no target yet. -/
def Statement.InRange : Statement → Prop
  | .tempo t => t.InRange
  | .send s => s.InRange
  | .looseSend _ => False
  | .wait w => w.InRange
  | .jump j => j.target = none ∧ Source.isIdentifier j.label = true ∧ ∀ n, j.count = some n → 0 ≤ n
  | .label name _ _ => Source.isIdentifier name = true
  | .loop count _ _ => ∀ n, count = some n → 1 ≤ n
  | .play p => p.InRange
  | .setting s => s.InRange

theorem TimeUnit.ofWord?_ne_unknown {word : String} {u : TimeUnit} (h : ofWord? word = some u)
    (name : String) : u ≠ .unknown name := by
  unfold ofWord? at h
  split at h <;> simp only [Option.some.injEq, reduceCtorEq] at h <;> subst h <;> simp

/-! ## Short numbers -/

namespace Text

def IsShort (n : Int) : Prop := n < 10 ^ digitLimit

theorem digit?_lt {c : Char} {d : Nat} (h : digit? c = some d) : d < 10 := by
  obtain ⟨z, hz, rfl⟩ := Option.map_eq_some_iff.mp h
  have hrange := List.find?_some hz
  simp only [Bool.and_eq_true, decide_eq_true_eq] at hrange
  omega

theorem number_lt (digits : List Char) : number digits < 10 ^ digits.length := by
  induction digits using List.reverseRecOn with
  | nil => exact Nat.one_pos
  | append_singleton ds c ih =>
    have hc : (digit? c).getD 0 < 10 := by
      cases hd : digit? c with
      | none => decide
      | some d => exact digit?_lt hd
    rw [number, List.foldl_append, List.length_append, List.length_singleton, Nat.pow_succ]
    show number ds * 10 + (digit? c).getD 0 < _
    omega

theorem isShort_of_lt {n : Int} (h : n < 10 ^ 3) : IsShort n :=
  h.trans_le (pow_le_pow_right₀ (by decide) (by decide))

end Text

namespace Source

theorem Token.Writes.isShort {t : Token} {n : Int} (h : t.Writes Text.digitLimit n) :
    Text.IsShort n := by
  obtain ⟨-, hlength, rfl⟩ := h
  have hvalue : t.value ≤ Text.number t.digits := by
    unfold Token.value Token.digits
    split
    · omega
    · exact le_rfl
  have hnumber : (Text.number t.digits : Int) < 10 ^ t.digits.length := by
    exact_mod_cast Text.number_lt t.digits
  exact (hvalue.trans_lt hnumber).trans_le (pow_le_pow_right₀ (by decide) hlength)

variable {limit : Nat}

/-! ## Parts -/

theorem ChannelAt.isChannel {c : Int} {ts rest : List Token} (h : ChannelAt limit c ts rest) :
    IsChannel c := by
  cases h with
  | counted _ h1 h16 => exact ⟨by omega, by omega⟩
  | raw _ h0 h16 => exact ⟨h0, h16⟩

theorem ChordAt.inRange {c : Chord} {ts rest : List Token} (h : ChordAt limit c ts rest) :
    0 ≤ c.root ∧ ∃ notes, c.notes = .ok notes := by
  cases h with
  | note hp =>
    refine ⟨hp.range.1, (Chord.notes_ok_iff (by simp)).mpr ?_⟩
    simpa [ChordKind.reach] using hp.range.2
  | chord hp _ _ hs hr => exact ⟨hp.range.1, (Chord.notes_ok_iff hs.ne.2).mpr hr⟩

theorem ChordsAt.inRange {cs : List Chord} {ts rest : List Token} (h : ChordsAt limit cs ts rest) :
    ∀ c ∈ cs, 0 ≤ c.root ∧ ∃ notes, c.notes = .ok notes := by
  induction h with
  | none => simp
  | more _ hc _ ih =>
    intro c hmem
    rcases List.mem_cons.mp hmem with rfl | hmem
    · exact hc.inRange
    · exact ih c hmem

def Assignment.InRange : Assignment → Prop
  | .duration w => w.InRange
  | .velocity v => IsVelocity v
  | .channel c => IsChannel c
  | .output _ => True

theorem ModifierAt.inRange {a : Assignment} {ts rest : List Token} (h : ModifierAt limit a ts rest) :
    a.InRange := by
  cases h with
  | duration _ _ h0 hu => exact ⟨h0, TimeUnit.ofWord?_ne_unknown hu.2⟩
  | velocity _ _ _ h1 h127 => exact ⟨by omega, h127⟩
  | channel _ hc => exact hc.isChannel
  | output => exact trivial

theorem ModifiersAt.inRange {as : List Assignment} {ts : List Token} (h : ModifiersAt limit as ts) :
    ∀ a ∈ as, a.InRange := by
  induction h with
  | none => simp
  | more ha _ ih =>
    intro a hmem
    rcases List.mem_cons.mp hmem with rfl | hmem
    · exact ha.inRange
    · exact ih a hmem

theorem playOf_inRange {cs : List Chord} {as : List Assignment} {pos : Pos}
    (hcs : ∀ c ∈ cs, 0 ≤ c.root ∧ ∃ notes, c.notes = .ok notes) (has : ∀ a ∈ as, a.InRange) :
    (playOf cs as pos).InRange := by
  refine ⟨hcs, fun w hw => ?_, fun v hv => ?_, fun c hc => ?_⟩
  · obtain ⟨a, ha, e⟩ := List.exists_of_findSome?_eq_some hw
    cases a <;> cases e
    exact has _ ha
  · obtain ⟨a, ha, e⟩ := List.exists_of_findSome?_eq_some hv
    cases a <;> cases e
    exact has _ ha
  · obtain ⟨a, ha, e⟩ := List.exists_of_findSome?_eq_some hc
    cases a <;> cases e
    exact has _ ha

/-! ## Lines -/

def IsPlain (s : Statement) : Prop := s.InRange ∧ s.isBlock = false

/-- What the reader guarantees of a line. -/
def Line.InRange : Line → Prop
  | .label name _ => isIdentifier name = true
  | .loop count _ => ∀ n, count = some n → 1 ≤ n
  | .plain s => IsPlain s

theorem Sentence.inRange {ts : List Token} {l : Line} (h : Sentence limit ts l) : l.InRange := by
  cases h with
  | tempo _ _ hb _ _ hn => exact ⟨⟨hb, hn⟩, rfl⟩
  | label _ hn => exact hn.2.1
  | loop _ hcount =>
    cases hcount with
    | none => exact fun n e => by cases e
    | some _ h1 => exact fun n e => by cases e; exact h1
  | send _ _ hc _ hp _ _ h0 h127 => exact ⟨⟨hc.isChannel, hp.range, h0, h127⟩, rfl⟩
  | wait _ _ h0 hu => exact ⟨⟨h0, TimeUnit.ofWord?_ne_unknown hu.2⟩, rfl⟩
  | jump _ hn hcount =>
    refine ⟨⟨rfl, hn.2.1, ?_⟩, rfl⟩
    cases hcount with
    | none => exact fun n e => by cases e
    | some _ h0 => exact fun n e => by cases e; exact h0
  | play _ hc hcs has =>
    refine ⟨playOf_inRange (fun c hmem => ?_) has.inRange, rfl⟩
    rcases List.mem_cons.mp hmem with rfl | hmem
    · exact hc.inRange
    · exact hcs.inRange c hmem
  | defaultVelocity _ _ _ h1 h127 => exact ⟨.velocity ⟨by omega, h127⟩, rfl⟩
  | defaultChannel _ _ hc => exact ⟨.channel hc.isChannel, rfl⟩
  | defaultDuration _ _ _ h0 hu => exact ⟨.duration ⟨h0, TimeUnit.ofWord?_ne_unknown hu.2⟩, rfl⟩
  | defaultOutput => exact ⟨.output, rfl⟩
  | signature _ _ hb1 hb255 _ _ hu1 hu64 hp =>
    exact ⟨.signature hb1 hb255 hu1 hu64 ((isPowerOfTwo_iff hu1).mpr hp), rfl⟩

/-- Every line that reads is in range. -/
theorem line_ok {ts : List Token} {l : Line} (h : line ts = .ok l) : l.InRange :=
  (sentence_of_line h).inRange

end Source

end Ostinato
