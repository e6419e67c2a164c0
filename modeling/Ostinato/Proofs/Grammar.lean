import Ostinato.Proofs.Spelling

/-!
# The grammar of a line

`Sentence limit ts l` says that the tokens `ts` make a line of the language, and that the line means
`l`: one constructor for each form, with the bounds of its numbers. A part that can have several
tokens is a relation between what it means, the tokens from its first one on and the tokens behind
it. No number has more than `limit` digits; the language itself has no limit.

Reading a line is then shown to accept exactly the sentences within the limit of the conversion.
Every reader has one lemma, `…_eq_ok`, that says on which tokens it succeeds and with what; the
readers that look ahead, for a colon, a comma or the end of the line, have one for each direction.
-/

namespace Ostinato.Source

open Text (digitLimit)

/-! ## Tokens -/

namespace Token

def Says (t : Token) (word : String) : Prop := t.kind = .word ∧ upper t.text = word

def Writes (limit : Nat) (t : Token) (n : Int) : Prop :=
  t.kind = .int ∧ t.digits.length ≤ limit ∧ t.value = n

def Names (t : Token) (name : String) : Prop :=
  t.kind = .word ∧ isIdentifier name = true ∧ t.text = name

def Measures (t : Token) (unit : TimeUnit) : Prop :=
  t.kind = .word ∧ TimeUnit.ofWord? (lower t.text) = some unit

inductive IsPitch (limit : Nat) (t : Token) : Int → Prop where
  | number {n : Int} : t.Writes limit n → 0 ≤ n → n ≤ maxNote → t.IsPitch limit n
  | literal {n : Int} : t.kind = .word → Pitch.Literal t.text.toList n →
      t.text.toList.countP Text.isDigit ≤ limit → 0 ≤ n → n ≤ maxNote → t.IsPitch limit n

theorem IsPitch.range {limit : Nat} {t : Token} {n : Int} (h : t.IsPitch limit n) :
    0 ≤ n ∧ n ≤ maxNote := by
  cases h with
  | number _ h0 h1 => exact ⟨h0, h1⟩
  | literal _ _ _ h0 h1 => exact ⟨h0, h1⟩

/-- A word stands right behind the token, without a blank. -/
def Glued (t : Token) (rest : List Token) : Prop :=
  ∃ u ∈ rest.head?, u.kind = .word ∧ u.column = t.endColumn

end Token

/-! ## Parts -/

/-- A count of at least `least`, or none. -/
inductive CountAt (limit : Nat) (least : Int) : Option Int → List Token → List Token → Prop where
  | none {rest : List Token} : CountAt limit least none rest rest
  | some {t : Token} {n : Int} {rest : List Token} :
      t.Writes limit n → least ≤ n → CountAt limit least (some n) (t :: rest) rest

/-- A channel counted from one, or one counted from zero with an `r` glued to it. -/
inductive ChannelAt (limit : Nat) : Int → List Token → List Token → Prop where
  | counted {t : Token} {n : Int} {rest : List Token} :
      t.Writes limit n → 1 ≤ n → n ≤ channelCount → ¬ t.Glued rest →
      ChannelAt limit (n - 1) (t :: rest) rest
  | raw {t r : Token} {n : Int} {rest : List Token} :
      t.Writes limit n → 0 ≤ n → n < channelCount → r.Says "R" → r.column = t.endColumn →
      ChannelAt limit n (t :: r :: rest) rest

/-- A pitch, or a pitch, a colon and a chord kind that keeps the chord's highest note in range. -/
inductive ChordAt (limit : Nat) : Chord → List Token → List Token → Prop where
  | note {t : Token} {n : Int} {rest : List Token} :
      t.IsPitch limit n → ChordAt limit ⟨n, .raw⟩ (t :: rest) rest
  | chord {t colon suffix : Token} {n : Int} {kind : ChordKind} {rest : List Token} :
      t.IsPitch limit n → colon.isPunct ":" → suffix.kind ≠ .punct → kind.Spelled suffix.text →
      n + kind.reach ≤ maxNote → ChordAt limit ⟨n, kind⟩ (t :: colon :: suffix :: rest) rest

/-- Further chords, each behind a comma. -/
inductive ChordsAt (limit : Nat) : List Chord → List Token → List Token → Prop where
  | none {rest : List Token} : ChordsAt limit [] rest rest
  | more {comma : Token} {c : Chord} {cs : List Chord} {ts ts' rest : List Token} :
      comma.isPunct "," → ChordAt limit c ts ts' → ChordsAt limit cs ts' rest →
      ChordsAt limit (c :: cs) (comma :: ts) rest

inductive Assignment where
  | duration (w : Wait)
  | velocity (v : Int)
  | channel (c : Int)
  | output (name : String)

namespace Assignment

def field : Assignment → Modifier
  | duration _ => .duration
  | velocity _ => .velocity
  | channel _ => .channel
  | output _ => .output

def duration? : Assignment → Option Wait
  | duration w => some w
  | _ => none

def velocity? : Assignment → Option Int
  | velocity v => some v
  | _ => none

def channel? : Assignment → Option Int
  | channel c => some c
  | _ => none

def output? : Assignment → Option String
  | output name => some name
  | _ => none

end Assignment

inductive ModifierAt (limit : Nat) : Assignment → List Token → List Token → Prop where
  | duration {t amount unit : Token} {n : Int} {u : TimeUnit} {rest : List Token} :
      t.Says "FOR" → amount.Writes limit n → 0 ≤ n → unit.Measures u →
      ModifierAt limit (.duration ⟨n, u, t.pos⟩) (t :: amount :: unit :: rest) rest
  | velocity {t equals v : Token} {n : Int} {rest : List Token} :
      t.Says "VEL" ∨ t.Says "VELOCITY" → equals.isPunct "=" → v.Writes limit n → 1 ≤ n →
      n ≤ maxVelocity → ModifierAt limit (.velocity n) (t :: equals :: v :: rest) rest
  | channel {t : Token} {c : Int} {ts rest : List Token} :
      t.Says "CHANNEL" → ChannelAt limit c ts rest → ModifierAt limit (.channel c) (t :: ts) rest
  | output {t name : Token} {s : String} {rest : List Token} :
      t.Says "ON" → name.Names s → ModifierAt limit (.output s) (t :: name :: rest) rest

/-- Modifiers up to the end of the line. -/
inductive ModifiersAt (limit : Nat) : List Assignment → List Token → Prop where
  | none : ModifiersAt limit [] []
  | more {a : Assignment} {as : List Assignment} {ts rest : List Token} :
      ModifierAt limit a ts rest → ModifiersAt limit as rest → ModifiersAt limit (a :: as) ts

/-- The output of a note up to the end of the line. -/
inductive OutputAt : Option String → List Token → Prop where
  | default : OutputAt none []
  | named {comma word equals name : Token} {s : String} :
      comma.isPunct "," → word.Says "OUTPUT" → equals.isPunct "=" → name.Names s →
      OutputAt (some s) [comma, word, equals, name]

/-- The press line of some chords and modifiers. What no modifier sets is left out. -/
def playOf (chords : List Chord) (as : List Assignment) (pos : Pos) : Play where
  chords := chords
  duration := as.findSome? Assignment.duration?
  velocity := as.findSome? Assignment.velocity?
  channel := as.findSome? Assignment.channel?
  output := as.findSome? Assignment.output?
  pos := pos

/-! ## Lines -/

inductive Sentence (limit : Nat) : List Token → Line → Prop where
  | tempo {head bpm comma ticks : Token} {b n : Int} :
      head.Says "SETBPM" → bpm.Writes limit b → 1 ≤ b → comma.isPunct "," →
      ticks.Writes limit n → 1 ≤ n →
      Sentence limit [head, bpm, comma, ticks] (.plain (.tempo ⟨b, n, head.pos⟩))
  | label {head name colon : Token} {s : String} :
      head.Says "LABEL" → name.Names s → colon.isPunct ":" →
      Sentence limit [head, name, colon] (.label s name.pos)
  | loop {head colon : Token} {count : Option Int} {ts : List Token} :
      head.Says "LOOP" → CountAt limit 1 count ts [colon] → colon.isPunct ":" →
      Sentence limit (head :: ts) (.loop count head.pos)
  | send {head kind comma pitch comma' velocity : Token} {on : Bool} {c n v : Int}
      {output : Option String} {ts ts' : List Token} :
      head.Says "SEND" → kind.Says (if on then "NOTEON" else "NOTEOFF") →
      ChannelAt limit c ts (comma :: pitch :: comma' :: velocity :: ts') → comma.isPunct "," →
      pitch.IsPitch limit n → comma'.isPunct "," → velocity.Writes limit v → 0 ≤ v →
      v ≤ maxVelocity → OutputAt output ts' →
      Sentence limit (head :: kind :: ts) (.plain (.send ⟨on, c, n, v, output, head.pos⟩))
  | wait {head amount unit : Token} {n : Int} {u : TimeUnit} :
      head.Says "WAIT" → amount.Writes limit n → 0 ≤ n → unit.Measures u →
      Sentence limit [head, amount, unit] (.plain (.wait ⟨n, u, head.pos⟩))
  | jump {head name : Token} {s : String} {count : Option Int} {ts : List Token} :
      head.Says "JUMP" → name.Names s → CountAt limit 0 count ts [] →
      Sentence limit (head :: name :: ts) (.plain (.jump ⟨s, count, none, head.pos⟩))
  | play {head : Token} {c : Chord} {cs : List Chord} {as : List Assignment}
      {ts ts' ts'' : List Token} :
      head.Says "PLAY" → ChordAt limit c ts ts' → ChordsAt limit cs ts' ts'' →
      ModifiersAt limit as ts'' → (as.map Assignment.field).Nodup →
      Sentence limit (head :: ts) (.plain (.play (playOf (c :: cs) as head.pos)))
  | defaultVelocity {head word velocity : Token} {v : Int} :
      head.Says "DEFAULT" → word.Says "VELOCITY" → velocity.Writes limit v → 1 ≤ v →
      v ≤ maxVelocity →
      Sentence limit [head, word, velocity] (.plain (.setting ⟨"velocity", .number v, head.pos⟩))
  | defaultChannel {head word : Token} {c : Int} {ts : List Token} :
      head.Says "DEFAULT" → word.Says "CHANNEL" → ChannelAt limit c ts [] →
      Sentence limit (head :: word :: ts) (.plain (.setting ⟨"channel", .number c, head.pos⟩))
  | defaultDuration {head word amount unit : Token} {n : Int} {u : TimeUnit} :
      head.Says "DEFAULT" → word.Says "DURATION" → amount.Writes limit n → 0 ≤ n → unit.Measures u →
      Sentence limit [head, word, amount, unit]
        (.plain (.setting ⟨"duration", .duration ⟨n, u, word.pos⟩, head.pos⟩))
  | defaultOutput {head word name : Token} {s : String} :
      head.Says "DEFAULT" → word.Says "OUTPUT" → name.Names s →
      Sentence limit [head, word, name] (.plain (.setting ⟨"output", .name s, head.pos⟩))
  | signature {head beats comma unit : Token} {b u : Int} :
      head.Says "SIGNATURE" → beats.Writes limit b → 1 ≤ b → b ≤ 255 → comma.isPunct "," →
      unit.Writes limit u → 1 ≤ u → u ≤ 64 → (∃ k : Nat, u = 2 ^ k) →
      Sentence limit [head, beats, comma, unit]
        (.plain (.setting ⟨"signature", .pair b u, head.pos⟩))

/-! ## Reading parts -/

theorem bind_ok_iff {ε α β : Type} {first : Except ε α} {next : α → Except ε β} {b : β} :
    first >>= next = .ok b ↔ ∃ a, first = .ok a ∧ next a = .ok b := by
  cases first with
  | error e => simp [bind, Except.bind]
  | ok a => simp [bind, Except.bind]

theorem fail_ne_ok {α : Type} {f : Fault} {t : Token} {a : α} : fail f t ≠ .ok a := by
  simp [fail]

theorem ite_fail_eq_ok {α : Type} {c : Prop} [Decidable c] {f : Fault} {t : Token} {a : α}
    {x : Except Failure α} : (if c then x else fail f t) = .ok a ↔ c ∧ x = .ok a := by
  split <;> simp_all [fail]

theorem fail_ite_eq_ok {α : Type} {c : Prop} [Decidable c] {f : Fault} {t : Token} {a : α}
    {x : Except Failure α} : (if c then fail f t else x) = .ok a ↔ ¬ c ∧ x = .ok a := by
  split <;> simp_all [fail]

section
variable {what symbol : String} {ts rest : List Token} {t : Token}

theorem any_eq_ok : any what ts = .ok (t, rest) ↔ ts = t :: rest := by
  cases ts <;> simp [any]

theorem word_eq_ok : word what ts = .ok (t, rest) ↔ ts = t :: rest ∧ t.kind = .word := by
  simp only [word, bind_ok_iff, Prod.exists, any_eq_ok, ite_fail_eq_ok, Except.ok.injEq,
    Prod.mk.injEq]
  constructor
  · rintro ⟨_, _, rfl, hw, rfl, rfl⟩
    exact ⟨rfl, hw⟩
  · rintro ⟨rfl, hw⟩
    exact ⟨_, _, rfl, hw, rfl, rfl⟩

theorem punct_eq_ok : punct symbol ts = .ok (t, rest) ↔ ts = t :: rest ∧ t.isPunct symbol := by
  simp only [punct, bind_ok_iff, Prod.exists, any_eq_ok, ite_fail_eq_ok, Except.ok.injEq,
    Prod.mk.injEq]
  constructor
  · rintro ⟨_, _, rfl, hp, rfl, rfl⟩
    exact ⟨rfl, hp⟩
  · rintro ⟨rfl, hp⟩
    exact ⟨_, _, rfl, hp, rfl, rfl⟩

theorem identifier_eq_ok :
    identifier what ts = .ok (t, rest) ↔ ts = t :: rest ∧ t.Names t.text := by
  simp only [identifier, bind_ok_iff, Prod.exists, word_eq_ok, ite_fail_eq_ok, Except.ok.injEq,
    Prod.mk.injEq]
  constructor
  · rintro ⟨_, _, ⟨rfl, hw⟩, hi, rfl, rfl⟩
    exact ⟨rfl, hw, hi, rfl⟩
  · rintro ⟨rfl, hw, hi, -⟩
    exact ⟨_, _, ⟨rfl, hw⟩, hi, rfl, rfl⟩

theorem number_eq_ok {n : Int} :
    number t = .ok n ↔ t.digits.length ≤ digitLimit ∧ t.value = n := by
  rw [number, ite_fail_eq_ok, Except.ok.injEq]

theorem int_eq_ok {least n : Int} {greatest : Option Int} :
    int what least greatest ts = .ok ((n, t), rest) ↔
      ts = t :: rest ∧ t.Writes digitLimit n ∧ least ≤ n ∧ ∀ g ∈ greatest, n ≤ g := by
  simp only [int, bind_ok_iff, Prod.exists, any_eq_ok, fail_ite_eq_ok, number_eq_ok,
    Except.ok.injEq, Prod.mk.injEq, Token.Writes]
  constructor
  · rintro ⟨_, _, rfl, hk, _, hn, hr, ⟨rfl, rfl⟩, rfl⟩
    refine ⟨rfl, ⟨not_not.mp hk, hn⟩, ?_⟩
    cases greatest <;> simpa using hr
  · rintro ⟨rfl, ⟨hk, hn⟩, hr⟩
    refine ⟨_, _, rfl, not_not.mpr hk, n, hn, ?_, ⟨rfl, rfl⟩, rfl⟩
    cases greatest <;> simpa using hr

/-- Letters are told apart by their capitals as by their small letters. -/
theorem lower_eq_iff {s w : String} (hw : lower w = w) : lower s = w ↔ upper s = upper w := by
  have hlu : ∀ s, lower (upper s) = lower s := by
    intro s
    simp [lower, upper, Function.comp_def]
  have hul : ∀ s, upper (lower s) = upper s := by
    intro s
    simp [lower, upper, Function.comp_def]
  constructor
  · rintro rfl
    rw [hul]
  · intro h
    rw [← hlu, h, hlu, hw]

/-- The reader of a channel behind its number: an `r` that is glued to it is taken as well. -/
theorem channel_eq_ok {c : Int} : channel ts = .ok (c, rest) ↔ ChannelAt digitLimit c ts rest := by
  have hr : ∀ s, lower s = "r" ↔ upper s = "R" := fun s => lower_eq_iff (by decide)
  simp only [channel, bind_ok_iff, Prod.exists, int_eq_ok]
  constructor
  · rintro ⟨n, t, rest', ⟨rfl, hn, h0, -⟩, h⟩
    split at h
    · rename_i r rest''
      split at h
      · rename_i hg
        simp only [fail_ite_eq_ok, ite_fail_eq_ok, not_not] at h
        obtain ⟨hl, h15, h⟩ := h
        cases h
        exact .raw hn h0 h15 ⟨hg.1, (hr _).mp hl⟩ hg.2
      · rename_i hg
        obtain ⟨⟨h1, h16⟩, h⟩ := ite_fail_eq_ok.mp h
        cases h
        exact .counted hn h1 h16 (by simpa [Token.Glued] using hg)
    · obtain ⟨⟨h1, h16⟩, h⟩ := ite_fail_eq_ok.mp h
      cases h
      exact .counted hn h1 h16 (by simp [Token.Glued])
  · rintro (⟨hn, h1, h16, hg⟩ | ⟨hn, h0, h15, hw, hcol⟩)
    · refine ⟨_, _, _, ⟨rfl, hn, by omega, by simp⟩, ?_⟩
      cases rest with
      | nil => exact if_pos ⟨h1, h16⟩
      | cons u rest =>
        dsimp only
        rw [if_neg fun hu => hg ⟨u, rfl, hu⟩]
        exact if_pos ⟨h1, h16⟩
    · refine ⟨_, _, _, ⟨rfl, hn, h0, by simp⟩, ?_⟩
      dsimp only
      rw [if_pos ⟨hw.1, hcol⟩, if_neg (not_not.mpr ((hr _).mpr hw.2)), if_pos h15]

theorem pitch_eq_ok {n : Int} :
    pitch ts = .ok ((n, t), rest) ↔ ts = t :: rest ∧ t.IsPitch digitLimit n := by
  simp only [pitch, bind_ok_iff, Prod.exists, any_eq_ok]
  constructor
  · rintro ⟨t', rest', rfl, h⟩
    split at h
    · rename_i hk
      simp only [bind_ok_iff, number_eq_ok, ite_fail_eq_ok] at h
      obtain ⟨_, hn, ⟨h0, h127⟩, h⟩ := h
      cases h
      exact ⟨rfl, .number ⟨hk, hn⟩ h0 h127⟩
    · exact absurd h fail_ne_ok
    · rename_i hk
      split at h
      · rename_i hp
        cases h
        obtain ⟨hl, hd, h0, h127⟩ := Pitch.parse_eq_ok.mp hp
        exact ⟨rfl, .literal hk hl hd h0 h127⟩
      · exact absurd h fail_ne_ok
  · rintro ⟨rfl, (⟨⟨hk, hn⟩, h0, h127⟩ | ⟨hk, hl, hd, h0, h127⟩)⟩
    · refine ⟨t, rest, rfl, ?_⟩
      simp only [hk, bind_ok_iff, number_eq_ok, ite_fail_eq_ok]
      exact ⟨n, hn, ⟨h0, h127⟩, rfl⟩
    · refine ⟨t, rest, rfl, ?_⟩
      simp only [hk, Pitch.parse_eq_ok.mpr ⟨hl, hd, h0, h127⟩]

theorem duration_eq_ok {head : Token} {w : Wait} :
    duration head ts = .ok (w, rest) ↔ ∃ amount unit n u, ts = amount :: unit :: rest ∧
      amount.Writes digitLimit n ∧ 0 ≤ n ∧ unit.Measures u ∧ w = ⟨n, u, head.pos⟩ := by
  simp only [duration, bind_ok_iff, Prod.exists, int_eq_ok, word_eq_ok]
  constructor
  · rintro ⟨n, amount, _, ⟨rfl, hn, h0, -⟩, unit, _, ⟨rfl, hw⟩, h⟩
    split at h
    · rename_i u hu
      cases h
      exact ⟨amount, unit, n, u, rfl, hn, h0, ⟨hw, hu⟩, rfl⟩
    · exact absurd h fail_ne_ok
  · rintro ⟨amount, unit, n, u, rfl, hn, h0, ⟨hw, hu⟩, rfl⟩
    refine ⟨n, amount, _, ⟨rfl, hn, h0, by simp⟩, unit, _, ⟨rfl, hw⟩, ?_⟩
    simp only [hu]

/-! ## Reading chords -/

def StartsWith (symbol : String) (ts : List Token) : Prop := ∃ t ∈ ts.head?, t.isPunct symbol

theorem chordKind_eq_ok {kind : ChordKind} : chordKind ts = .ok (kind, rest) ↔
    kind = .raw ∧ rest = ts ∧ ¬ StartsWith ":" ts ∨
      ∃ colon suffix, ts = colon :: suffix :: rest ∧ colon.isPunct ":" ∧ suffix.kind ≠ .punct ∧
        kind.Spelled suffix.text := by
  cases ts with
  | nil =>
    simp only [chordKind, Except.ok.injEq, Prod.mk.injEq]
    constructor
    · rintro ⟨rfl, rfl⟩
      exact .inl ⟨rfl, rfl, by simp [StartsWith]⟩
    · rintro (⟨rfl, rfl, -⟩ | ⟨_, _, e, -⟩)
      · exact ⟨rfl, rfl⟩
      · cases e
  | cons colon ts =>
    by_cases hc : colon.isPunct ":"
    · simp only [chordKind, if_pos hc, bind_ok_iff, Prod.exists, any_eq_ok, fail_ite_eq_ok]
      constructor
      · rintro ⟨suffix, _, rfl, hk, h⟩
        split at h
        · rename_i kind' hp
          cases h
          exact .inr ⟨colon, suffix, rfl, hc, hk, ChordKind.parse_eq_ok.mp hp⟩
        · exact absurd h fail_ne_ok
      · rintro (⟨-, -, hs⟩ | ⟨_, suffix, e, -, hk, hs⟩)
        · exact absurd ⟨colon, rfl, hc⟩ hs
        · cases e
          exact ⟨suffix, rest, rfl, hk, by simp only [ChordKind.parse_eq_ok.mpr hs]⟩
    · simp only [chordKind, if_neg hc, Except.ok.injEq, Prod.mk.injEq]
      constructor
      · rintro ⟨rfl, rfl⟩
        exact .inl ⟨rfl, rfl, by simpa [StartsWith] using hc⟩
      · rintro (⟨rfl, rfl, -⟩ | ⟨_, suffix, e, hc', -⟩)
        · exact ⟨rfl, rfl⟩
        · cases e
          exact absurd hc' hc

theorem chord_eq_ok {c : Chord} : chord ts = .ok (c, rest) ↔
    ChordAt digitLimit c ts rest ∧ (c.kind = .raw → ¬ StartsWith ":" rest) := by
  simp only [chord, bind_ok_iff, Prod.exists, pitch_eq_ok, chordKind_eq_ok]
  constructor
  · rintro ⟨n, t, _, ⟨rfl, hp⟩, kind, _, hk, h⟩
    split at h
    · rename_i notes hn
      cases h
      rcases hk with ⟨rfl, rfl, hs⟩ | ⟨colon, suffix, rfl, hc, hk, hs⟩
      · exact ⟨.note hp, fun _ => hs⟩
      · have hr := (Chord.notes_ok_iff (ChordKind.Spelled.ne hs).2).mp ⟨notes, hn⟩
        exact ⟨.chord hp hc hk hs hr, fun e => absurd e (ChordKind.Spelled.ne hs).1⟩
    · exact absurd h fail_ne_ok
  · rintro ⟨h, hcolon⟩
    cases h with
    | @note t n _ hp =>
      have hn : ∃ notes, (⟨n, .raw⟩ : Chord).notes = .ok notes :=
        (Chord.notes_ok_iff (by simp)).mpr (by simpa [ChordKind.reach] using hp.range.2)
      obtain ⟨notes, hn⟩ := hn
      refine ⟨n, t, rest, ⟨rfl, hp⟩, .raw, rest, .inl ⟨rfl, rfl, hcolon rfl⟩, ?_⟩
      simp only [hn]
    | @chord t colon suffix n kind _ hp hc hk hs hr =>
      obtain ⟨notes, hn⟩ :=
        (Chord.notes_ok_iff (c := ⟨n, kind⟩) (ChordKind.Spelled.ne hs).2).mpr hr
      refine ⟨n, t, _, ⟨rfl, hp⟩, kind, rest, .inr ⟨colon, suffix, rfl, hc, hk, hs⟩, ?_⟩
      simp only [hn]

theorem isPunct_unique {symbol' : String} (h : t.isPunct symbol) (h' : t.isPunct symbol') :
    symbol = symbol' := by
  simp only [Token.isPunct, Bool.and_eq_true, beq_iff_eq] at h h'
  exact h.2.symm.trans h'.2

theorem ChordAt.length_lt {limit : Nat} {c : Chord} (h : ChordAt limit c ts rest) :
    rest.length < ts.length := by
  cases h <;> simp
  omega

theorem chordsAt_of_moreChords {n : Nat} {cs : List Chord} (h : moreChords n ts = .ok (cs, rest)) :
    ChordsAt digitLimit cs ts rest := by
  fun_induction moreChords n ts generalizing cs rest with
  | case1 | case2 | case4 =>
    cases h
    exact .none
  | case3 n comma ts hcomma ih =>
    simp only [bind_ok_iff, Prod.exists, chord_eq_ok] at h
    obtain ⟨c, ts', ⟨hc, -⟩, cs', _, hcs, h⟩ := h
    cases h
    exact .more hcomma hc (ih _ hcs)

/-- What follows a chord of a press line is no colon when what follows the chords is none. -/
theorem ChordsAt.not_colon {limit : Nat} {cs : List Chord} (h : ChordsAt limit cs ts rest)
    (hr : ¬ StartsWith ":" rest) : ¬ StartsWith ":" ts := by
  cases h with
  | none => exact hr
  | more hcomma =>
    rintro ⟨t, e, hcolon⟩
    cases e
    exact absurd (isPunct_unique hcomma hcolon) (by decide)

theorem ChordsAt.moreChords {cs : List Chord} (h : ChordsAt digitLimit cs ts rest)
    (hcolon : ¬ StartsWith ":" rest) (hcomma : ¬ StartsWith "," rest) {n : Nat}
    (hn : ts.length ≤ n) : moreChords n ts = .ok (cs, rest) := by
  induction h generalizing n with
  | none =>
    fun_cases Source.moreChords with
    | case1 | case2 | case4 => rfl
    | case3 _ t _ ht => exact absurd ⟨t, rfl, ht⟩ hcomma
  | @more comma c cs ts ts' rest hc hchord hcs ih =>
    obtain ⟨n, rfl⟩ : ∃ m, n = m + 1 := ⟨n - 1, by simp at hn; omega⟩
    have hlt := hchord.length_lt
    have hread : chord ts = .ok (c, ts') :=
      chord_eq_ok.mpr ⟨hchord, fun _ => hcs.not_colon hcolon⟩
    have hmore := ih hcolon hcomma (n := n) (by simp at hn; omega)
    simp only [Source.moreChords, if_pos hc, hread, hmore, bind, Except.bind]

end

/-! ## Reading modifiers -/

def Assignment.set (p : Play) : Assignment → Play
  | duration w => { p with duration := some w }
  | velocity v => { p with velocity := some v }
  | channel c => { p with channel := some c }
  | output name => { p with output := some name }

section
variable {ts rest : List Token} {t : Token} {p p' : Play}

theorem modifier_ofWord? {word : String} {m : Modifier} : Modifier.ofWord? word = some m ↔
    m = .duration ∧ word = "FOR" ∨ m = .velocity ∧ (word = "VEL" ∨ word = "VELOCITY") ∨
      m = .channel ∧ word = "CHANNEL" ∨ m = .output ∧ word = "ON" := by
  constructor
  · intro h
    unfold Modifier.ofWord? at h
    split at h <;> cases h <;> simp
  · rintro (⟨rfl, rfl⟩ | ⟨rfl, rfl | rfl⟩ | ⟨rfl, rfl⟩ | ⟨rfl, rfl⟩) <;> rfl

theorem modifier_eq_ok : (∃ m, t.kind = .word ∧ Modifier.ofWord? (upper t.text) = some m ∧
    m.isSet p = false ∧ m.read t p ts = .ok (p', rest)) ↔
    ∃ a, ModifierAt digitLimit a (t :: ts) rest ∧ a.field.isSet p = false ∧ p' = a.set p := by
  constructor
  · rintro ⟨m, hw, hm, hset, h⟩
    rcases modifier_ofWord?.mp hm with ⟨rfl, hs⟩ | ⟨rfl, hs⟩ | ⟨rfl, hs⟩ | ⟨rfl, hs⟩
    · simp only [Modifier.read, bind_ok_iff, Prod.exists, duration_eq_ok] at h
      obtain ⟨w, _, ⟨amount, unit, n, u, rfl, hn, h0, hu, rfl⟩, h⟩ := h
      cases h
      exact ⟨_, .duration ⟨hw, hs⟩ hn h0 hu, hset, rfl⟩
    · simp only [Modifier.read, bind_ok_iff, Prod.exists, punct_eq_ok, int_eq_ok] at h
      obtain ⟨equals, _, ⟨rfl, he⟩, n, v, _, ⟨rfl, hn, h1, h127⟩, h⟩ := h
      cases h
      refine ⟨_, .velocity ?_ he hn h1 (h127 _ rfl), hset, rfl⟩
      exact hs.imp (⟨hw, ·⟩) (⟨hw, ·⟩)
    · simp only [Modifier.read, bind_ok_iff, Prod.exists, channel_eq_ok] at h
      obtain ⟨c, _, hc, h⟩ := h
      cases h
      exact ⟨_, .channel ⟨hw, hs⟩ hc, hset, rfl⟩
    · simp only [Modifier.read, bind_ok_iff, Prod.exists, identifier_eq_ok] at h
      obtain ⟨name, _, ⟨rfl, hn⟩, h⟩ := h
      cases h
      exact ⟨_, .output ⟨hw, hs⟩ hn, hset, rfl⟩
  · rintro ⟨a, ha, hset, rfl⟩
    cases ha with
    | @duration _ amount unit n u _ hs hn h0 hu =>
      refine ⟨.duration, hs.1, modifier_ofWord?.mpr (.inl ⟨rfl, hs.2⟩), hset, ?_⟩
      simp only [Modifier.read, bind_ok_iff, Prod.exists, duration_eq_ok]
      exact ⟨_, _, ⟨amount, unit, n, u, rfl, hn, h0, hu, rfl⟩, rfl⟩
    | @velocity _ equals v n _ hs he hn h1 h127 =>
      have hw : t.kind = .word := hs.elim (·.1) (·.1)
      have hs : upper t.text = "VEL" ∨ upper t.text = "VELOCITY" := hs.imp (·.2) (·.2)
      refine ⟨.velocity, hw, modifier_ofWord?.mpr (.inr (.inl ⟨rfl, hs⟩)), hset, ?_⟩
      simp only [Modifier.read, bind_ok_iff, Prod.exists, punct_eq_ok, int_eq_ok]
      exact ⟨equals, _, ⟨rfl, he⟩, n, v, _, ⟨rfl, hn, h1, by simpa using h127⟩, rfl⟩
    | @channel _ c _ _ hs hc =>
      refine ⟨.channel, hs.1, modifier_ofWord?.mpr (.inr (.inr (.inl ⟨rfl, hs.2⟩))), hset, ?_⟩
      simp only [Modifier.read, bind_ok_iff, Prod.exists, channel_eq_ok]
      exact ⟨c, _, hc, rfl⟩
    | @output _ name s _ hs hn =>
      refine ⟨.output, hs.1, modifier_ofWord?.mpr (.inr (.inr (.inr ⟨rfl, hs.2⟩))), hset, ?_⟩
      obtain rfl := hn.2.2
      simp only [Modifier.read, bind_ok_iff, Prod.exists, identifier_eq_ok]
      exact ⟨name, _, ⟨rfl, hn⟩, rfl⟩

theorem modifiers_succ {n : Nat} (hne : ts ≠ []) : modifiers (n + 1) p ts = .ok (p', rest) ↔
    ∃ a ts', ModifierAt digitLimit a ts ts' ∧ a.field.isSet p = false ∧
      modifiers n (a.set p) ts' = .ok (p', rest) := by
  obtain ⟨t, ts, rfl⟩ := List.exists_cons_of_ne_nil hne
  simp only [modifiers, bind_ok_iff, Prod.exists, word_eq_ok]
  constructor
  · rintro ⟨_, _, ⟨e, hw⟩, h⟩
    cases e
    split at h
    · exact absurd h fail_ne_ok
    · rename_i m hm
      simp only [fail_ite_eq_ok, bind_ok_iff, Prod.exists, Bool.not_eq_true] at h
      obtain ⟨hset, q, ts', hread, h⟩ := h
      obtain ⟨a, ha, hset, rfl⟩ := modifier_eq_ok.mp ⟨m, hw, hm, hset, hread⟩
      exact ⟨a, ts', ha, hset, h⟩
  · rintro ⟨a, ts', ha, hset, h⟩
    obtain ⟨m, hw, hm, hset, hread⟩ := modifier_eq_ok.mpr ⟨a, ha, hset, rfl⟩
    refine ⟨t, ts, ⟨rfl, hw⟩, ?_⟩
    simp only [hm, fail_ite_eq_ok, bind_ok_iff, Prod.exists, Bool.not_eq_true]
    exact ⟨hset, _, ts', hread, h⟩

theorem ModifierAt.length_lt {limit : Nat} {a : Assignment} (h : ModifierAt limit a ts rest) :
    rest.length < ts.length := by
  cases h with
  | channel _ hc => cases hc <;> simp only [List.length_cons] <;> omega
  | _ => simp only [List.length_cons]; omega

/-- A press line with the fields that some modifiers set where it has none. -/
def extend (p : Play) (as : List Assignment) : Play :=
  { p with
    duration := p.duration.or (as.findSome? Assignment.duration?)
    velocity := p.velocity.or (as.findSome? Assignment.velocity?)
    channel := p.channel.or (as.findSome? Assignment.channel?)
    output := p.output.or (as.findSome? Assignment.output?) }

theorem extend_cons {a : Assignment} {as : List Assignment} (h : a.field.isSet p = false) :
    extend p (a :: as) = extend (a.set p) as := by
  cases a <;> simp_all [extend, Assignment.set, Assignment.field, Modifier.isSet,
    List.findSome?_cons, Assignment.duration?, Assignment.velocity?, Assignment.channel?,
    Assignment.output?]

theorem isSet_set {m : Modifier} {a : Assignment} :
    m.isSet (a.set p) = false ↔ a.field ≠ m ∧ m.isSet p = false := by
  cases m <;> cases a <;> simp [Modifier.isSet, Assignment.set, Assignment.field]

theorem modifiers_nil {n : Nat} : modifiers n p [] = .ok (p', []) ↔
    ∃ as, ModifiersAt digitLimit as [] ∧ (as.map Assignment.field).Nodup ∧
      (∀ a ∈ as, a.field.isSet p = false) ∧ p' = extend p as := by
  have hread : modifiers n p [] = .ok (p, []) := by cases n <;> rfl
  have hp : extend p [] = p := by simp [extend]
  rw [hread]
  constructor
  · intro h
    cases h
    exact ⟨[], .none, by simp, by simp, hp.symm⟩
  · rintro ⟨as, has, -, -, rfl⟩
    cases has with
    | none => rw [hp]
    | more ha => cases ha

theorem modifiers_eq_ok {n : Nat} (hn : ts.length ≤ n) : modifiers n p ts = .ok (p', []) ↔
    ∃ as, ModifiersAt digitLimit as ts ∧ (as.map Assignment.field).Nodup ∧
      (∀ a ∈ as, a.field.isSet p = false) ∧ p' = extend p as := by
  induction n generalizing p ts with
  | zero =>
    obtain rfl : ts = [] := List.length_eq_zero_iff.mp (Nat.le_zero.mp hn)
    rw [modifiers_nil]
  | succ n ih =>
    by_cases hne : ts = []
    · subst hne
      rw [modifiers_nil]
    · rw [modifiers_succ hne]
      constructor
      · rintro ⟨a, ts', ha, hset, h⟩
        have hlt := ha.length_lt
        obtain ⟨as, has, hnd, hfree, rfl⟩ := (ih (by omega)).mp h
        simp only [isSet_set] at hfree
        refine ⟨a :: as, .more ha has, ?_, ?_, (extend_cons hset).symm⟩
        · rw [List.map_cons, List.nodup_cons]
          refine ⟨fun hm => ?_, hnd⟩
          obtain ⟨a', ha', e⟩ := List.mem_map.mp hm
          exact (hfree a' ha').1 e.symm
        · intro a' ha'
          rcases List.mem_cons.mp ha' with rfl | ha'
          · exact hset
          · exact (hfree a' ha').2
      · rintro ⟨as, has, hnd, hfree, rfl⟩
        cases has with
        | none => exact absurd rfl hne
        | @more a as _ ts' ha has =>
          have hlt := ha.length_lt
          have hset := hfree a (by simp)
          rw [List.map_cons, List.nodup_cons] at hnd
          refine ⟨a, ts', ha, hset, (ih (by omega)).mpr ⟨as, has, hnd.2, ?_, extend_cons hset⟩⟩
          intro a' ha'
          refine isSet_set.mpr ⟨fun e => hnd.1 ?_, hfree a' (by simp [ha'])⟩
          exact e ▸ List.mem_map_of_mem ha'

end

/-! ## Reading lines -/

def Keyword.word : Keyword → String
  | setbpm => "SETBPM"
  | label => "LABEL"
  | loop => "LOOP"
  | send => "SEND"
  | play => "PLAY"
  | wait => "WAIT"
  | jump => "JUMP"
  | preset => "DEFAULT"
  | signature => "SIGNATURE"

theorem keyword_ofWord? {word : String} {k : Keyword} :
    Keyword.ofWord? word = some k ↔ word = k.word := by
  constructor
  · intro h
    unfold Keyword.ofWord? at h
    split at h <;> cases h <;> rfl
  · rintro rfl
    cases k <;> rfl

section
variable {head : Token} {ts rest : List Token} {l : Line} {s : Statement}

theorem atEnd_eq_ok {u : Unit} : atEnd ts = .ok u ↔ ts = [] := by
  cases ts <;> simp [atEnd, fail]

/-- A line is a keyword and what its form takes up to the end. -/
theorem line_eq_ok_iff_form : line ts = .ok l ↔ ∃ head rest k,
    ts = head :: rest ∧ head.Says (Keyword.word k) ∧ form head k rest = .ok (l, []) := by
  simp only [line, keyword, bind_ok_iff, Prod.exists, word_eq_ok, atEnd_eq_ok]
  constructor
  · rintro ⟨head, k, rest, ⟨_, _, ⟨rfl, hw⟩, hk⟩, l', _, hform, _, rfl, h⟩
    cases h
    split at hk
    · rename_i k' hk'
      cases hk
      exact ⟨head, rest, k, rfl, ⟨hw, keyword_ofWord?.mp hk'⟩, hform⟩
    · exact absurd hk fail_ne_ok
  · rintro ⟨head, rest, k, rfl, ⟨hw, hk⟩, hform⟩
    refine ⟨head, k, rest, ⟨head, rest, ⟨rfl, hw⟩, ?_⟩, l, [], hform, (), rfl, rfl⟩
    simp only [keyword_ofWord?.mpr hk]

theorem plain_eq_ok {r : Reader Statement} :
    plain r ts = .ok (l, rest) ↔ ∃ s, r ts = .ok (s, rest) ∧ l = .plain s := by
  simp only [plain, bind_ok_iff, Prod.exists]
  constructor
  · rintro ⟨s, _, h, e⟩
    cases e
    exact ⟨s, h, rfl⟩
  · rintro ⟨s, h, rfl⟩
    exact ⟨s, rest, h, rfl⟩

theorem outputClause_eq_ok {output : Option String} :
    outputClause ts = .ok (output, []) ↔ OutputAt output ts := by
  cases ts with
  | nil =>
    constructor
    · intro h
      cases h
      exact .default
    · intro h
      cases h
      rfl
  | cons t ts =>
    simp only [outputClause, bind_ok_iff, Prod.exists, punct_eq_ok, word_eq_ok, fail_ite_eq_ok,
      identifier_eq_ok, not_not]
    constructor
    · rintro ⟨comma, _, ⟨e, hc⟩, word, _, ⟨rfl, hw⟩, hs, equals, _, ⟨rfl, he⟩, name, _, ⟨rfl, hn⟩,
        h⟩
      cases e
      cases h
      exact .named hc ⟨hw, hs⟩ he hn
    · intro h
      cases h with
      | named hc hs he hn =>
        obtain rfl := hn.2.2
        exact ⟨_, _, ⟨rfl, hc⟩, _, _, ⟨rfl, hs.1⟩, hs.2, _, _, ⟨rfl, he⟩, _, _, ⟨rfl, hn⟩, rfl⟩

theorem labelHead_eq_ok : labelHead ts = .ok (l, []) ↔ ∃ name colon,
    ts = [name, colon] ∧ name.Names name.text ∧ colon.isPunct ":" ∧
      l = .label name.text name.pos := by
  simp only [labelHead, bind_ok_iff, Prod.exists, identifier_eq_ok, punct_eq_ok]
  constructor
  · rintro ⟨name, _, ⟨rfl, hn⟩, colon, _, ⟨rfl, hc⟩, h⟩
    cases h
    exact ⟨name, colon, rfl, hn, hc, rfl⟩
  · rintro ⟨name, colon, rfl, hn, hc, rfl⟩
    exact ⟨name, _, ⟨rfl, hn⟩, colon, _, ⟨rfl, hc⟩, rfl⟩

theorem loopHead_eq_ok : loopHead head ts = .ok (l, []) ↔ ∃ count colon,
    CountAt digitLimit 1 count ts [colon] ∧ colon.isPunct ":" ∧ l = .loop count head.pos := by
  unfold loopHead
  constructor
  · intro h
    split at h
    · rename_i t ts
      split at h
      · simp only [bind_ok_iff, Prod.exists, int_eq_ok, punct_eq_ok] at h
        obtain ⟨n, _, _, ⟨e, hn, h1, -⟩, _, _, hcount, colon, _, ⟨rfl, hc⟩, h⟩ := h
        cases e
        cases hcount
        cases h
        exact ⟨some n, colon, .some hn h1, hc, rfl⟩
      · simp only [bind_ok_iff, Prod.exists, punct_eq_ok] at h
        obtain ⟨_, _, hcount, colon, _, ⟨rfl, hc⟩, h⟩ := h
        cases hcount
        cases h
        exact ⟨none, t, .none, hc, rfl⟩
    · simp only [bind_ok_iff, Prod.exists, punct_eq_ok] at h
      obtain ⟨_, _, hcount, colon, _, ⟨rfl, hc⟩, h⟩ := h
      cases hcount
  · rintro ⟨count, colon, hcount, hc, rfl⟩
    cases hcount with
    | none =>
      have hk : colon.kind ≠ .int := fun e => by simp [Token.isPunct, e] at hc
      simp only [if_neg hk, bind_ok_iff, Prod.exists, punct_eq_ok]
      exact ⟨none, _, rfl, colon, _, ⟨rfl, hc⟩, rfl⟩
    | @some t n _ hn h1 =>
      simp only [if_pos hn.1, bind_ok_iff, Prod.exists, int_eq_ok, punct_eq_ok]
      exact ⟨n, t, _, ⟨rfl, hn, h1, by simp⟩, some n, _, rfl, colon, _, ⟨rfl, hc⟩, rfl⟩

theorem setTempo_eq_ok : setTempo head ts = .ok (s, []) ↔ ∃ bpm comma ticks b n,
    ts = [bpm, comma, ticks] ∧ bpm.Writes digitLimit b ∧ 1 ≤ b ∧ comma.isPunct "," ∧
      ticks.Writes digitLimit n ∧ 1 ≤ n ∧ s = .tempo ⟨b, n, head.pos⟩ := by
  simp only [setTempo, bind_ok_iff, Prod.exists, int_eq_ok, punct_eq_ok]
  constructor
  · rintro ⟨b, bpm, _, ⟨rfl, hb, hb1, -⟩, comma, _, ⟨rfl, hc⟩, n, ticks, _, ⟨rfl, hn, hn1, -⟩, h⟩
    cases h
    exact ⟨bpm, comma, ticks, b, n, rfl, hb, hb1, hc, hn, hn1, rfl⟩
  · rintro ⟨bpm, comma, ticks, b, n, rfl, hb, hb1, hc, hn, hn1, rfl⟩
    exact ⟨b, bpm, _, ⟨rfl, hb, hb1, by simp⟩, comma, _, ⟨rfl, hc⟩, n, ticks, _,
      ⟨rfl, hn, hn1, by simp⟩, rfl⟩

theorem message_iff {kind : Token} {on : Bool} (hw : kind.kind = .word) :
    (upper kind.text = "NOTEON" ∨ upper kind.text = "NOTEOFF") ∧
        (upper kind.text == "NOTEON") = on ↔
      kind.Says (if on then "NOTEON" else "NOTEOFF") := by
  constructor
  · rintro ⟨hm | hm, rfl⟩
    · exact ⟨hw, by simp [hm]⟩
    · exact ⟨hw, by simp [hm]⟩
  · rintro ⟨-, hm⟩
    rw [hm]
    cases on <;> decide

theorem sendNote_eq_ok : sendNote head ts = .ok (s, []) ↔
    ∃ kind comma pitch comma' velocity on c n v output ts' ts'', ts = kind :: ts' ∧
      kind.Says (if on then "NOTEON" else "NOTEOFF") ∧
      ChannelAt digitLimit c ts' (comma :: pitch :: comma' :: velocity :: ts'') ∧
      comma.isPunct "," ∧ pitch.IsPitch digitLimit n ∧ comma'.isPunct "," ∧
      velocity.Writes digitLimit v ∧ 0 ≤ v ∧ v ≤ maxVelocity ∧
      OutputAt output ts'' ∧ s = .send ⟨on, c, n, v, output, head.pos⟩ := by
  simp only [sendNote, bind_ok_iff, Prod.exists, word_eq_ok, fail_ite_eq_ok, channel_eq_ok,
    int_eq_ok, punct_eq_ok, pitch_eq_ok]
  constructor
  · rintro ⟨kind, ts', ⟨rfl, hw⟩, hm, c, _, hch, comma, _, ⟨rfl, hc⟩, n, pitch, _, ⟨rfl, hp⟩,
      comma', _, ⟨rfl, hc'⟩, v, velocity, ts'', ⟨rfl, hv, h0, h127⟩, output, _, ho, h⟩
    cases h
    exact ⟨kind, comma, pitch, comma', velocity, _, c, n, v, output, ts', ts'', rfl,
      (message_iff hw).mp ⟨by tauto, rfl⟩, hch, hc, hp, hc', hv, h0, h127 _ rfl,
      outputClause_eq_ok.mp ho, rfl⟩
  · rintro ⟨kind, comma, pitch, comma', velocity, on, c, n, v, output, ts', ts'', rfl, hkind, hch,
      hc, hp, hc', hv, h0, h127, ho, rfl⟩
    obtain ⟨hm, hon⟩ := (message_iff hkind.1).mpr hkind
    refine ⟨kind, ts', ⟨rfl, hkind.1⟩, by tauto, c, _, hch, comma, _, ⟨rfl, hc⟩, n, pitch, _,
      ⟨rfl, hp⟩, comma', _, ⟨rfl, hc'⟩, v, velocity, ts'', ⟨rfl, hv, h0, by simpa using h127⟩,
      output, [], outputClause_eq_ok.mpr ho, ?_⟩
    rw [hon]

theorem waitLine_eq_ok : waitLine head ts = .ok (s, []) ↔ ∃ amount unit n u,
    ts = [amount, unit] ∧ amount.Writes digitLimit n ∧ 0 ≤ n ∧ unit.Measures u ∧
      s = .wait ⟨n, u, head.pos⟩ := by
  simp only [waitLine, bind_ok_iff, Prod.exists, duration_eq_ok]
  constructor
  · rintro ⟨w, _, ⟨amount, unit, n, u, rfl, hn, h0, hu, rfl⟩, h⟩
    cases h
    exact ⟨amount, unit, n, u, rfl, hn, h0, hu, rfl⟩
  · rintro ⟨amount, unit, n, u, rfl, hn, h0, hu, rfl⟩
    exact ⟨_, [], ⟨amount, unit, n, u, rfl, hn, h0, hu, rfl⟩, rfl⟩

theorem jumpLine_eq_ok : jumpLine head ts = .ok (s, []) ↔ ∃ name count ts',
    ts = name :: ts' ∧ name.Names name.text ∧ CountAt digitLimit 0 count ts' [] ∧
      s = .jump ⟨name.text, count, none, head.pos⟩ := by
  simp only [jumpLine, bind_ok_iff, Prod.exists, identifier_eq_ok]
  constructor
  · rintro ⟨name, ts', ⟨rfl, hn⟩, h⟩
    split at h
    · cases h
      exact ⟨name, none, [], rfl, hn, .none, rfl⟩
    · simp only [bind_ok_iff, Prod.exists, int_eq_ok] at h
      obtain ⟨n, t, _, ⟨rfl, hc, h0, -⟩, h⟩ := h
      cases h
      exact ⟨name, some n, [t], rfl, hn, .some hc h0, rfl⟩
  · rintro ⟨name, count, ts', rfl, hn, hcount, rfl⟩
    refine ⟨name, ts', ⟨rfl, hn⟩, ?_⟩
    cases hcount with
    | none => rfl
    | @some t n _ hc h0 =>
      simp only [bind_ok_iff, Prod.exists, int_eq_ok]
      exact ⟨n, t, [], ⟨rfl, hc, h0, by simp⟩, rfl⟩

theorem isPowerOfTwo_iff {n : Int} (hn : 1 ≤ n) : isPowerOfTwo n ↔ ∃ k : Nat, n = 2 ^ k := by
  obtain ⟨m, rfl⟩ := Int.eq_ofNat_of_zero_le (by omega : 0 ≤ n)
  simp only [isPowerOfTwo, Bool.and_eq_true, decide_eq_true_eq, beq_iff_eq, Int.toNat_natCast,
    Nat.pow_eq]
  constructor
  · rintro ⟨-, h⟩
    exact ⟨m.log2, by exact_mod_cast h.symm⟩
  · rintro ⟨k, h⟩
    obtain rfl : m = 2 ^ k := by exact_mod_cast h
    exact ⟨by omega, by rw [Nat.log2_two_pow]⟩

theorem signatureLine_eq_ok : signatureLine head ts = .ok (s, []) ↔ ∃ beats comma unit b u,
    ts = [beats, comma, unit] ∧ beats.Writes digitLimit b ∧ 1 ≤ b ∧ b ≤ 255 ∧ comma.isPunct "," ∧
      unit.Writes digitLimit u ∧ 1 ≤ u ∧ u ≤ 64 ∧ (∃ k : Nat, u = 2 ^ k) ∧
      s = .setting ⟨"signature", .pair b u, head.pos⟩ := by
  simp only [signatureLine, bind_ok_iff, Prod.exists, int_eq_ok, punct_eq_ok, ite_fail_eq_ok]
  constructor
  · rintro ⟨b, beats, _, ⟨rfl, hb, hb1, hb255⟩, comma, _, ⟨rfl, hc⟩, u, unit, _,
      ⟨rfl, hu, hu1, hu64⟩, hp, h⟩
    cases h
    exact ⟨beats, comma, unit, b, u, rfl, hb, hb1, hb255 _ rfl, hc, hu, hu1, hu64 _ rfl,
      (isPowerOfTwo_iff hu1).mp hp, rfl⟩
  · rintro ⟨beats, comma, unit, b, u, rfl, hb, hb1, hb255, hc, hu, hu1, hu64, hp, rfl⟩
    exact ⟨b, beats, _, ⟨rfl, hb, hb1, by simpa using hb255⟩, comma, _, ⟨rfl, hc⟩, u, unit, _,
      ⟨rfl, hu, hu1, by simpa using hu64⟩, (isPowerOfTwo_iff hu1).mpr hp, rfl⟩

theorem defaultLine_eq_ok (hhead : head.Says "DEFAULT") :
    defaultLine head ts = .ok (s, []) ↔ Sentence digitLimit (head :: ts) (.plain s) := by
  simp only [defaultLine, bind_ok_iff, Prod.exists, word_eq_ok]
  constructor
  · rintro ⟨word, _, ⟨rfl, hw⟩, h⟩
    split at h <;> rename_i hname
    · simp only [bind_ok_iff, Prod.exists, int_eq_ok] at h
      obtain ⟨v, velocity, _, ⟨rfl, hv, h1, h127⟩, h⟩ := h
      cases h
      rw [hname]
      exact .defaultVelocity hhead ⟨hw, (lower_eq_iff (by decide)).mp hname⟩ hv h1 (h127 _ rfl)
    · simp only [bind_ok_iff, Prod.exists, channel_eq_ok] at h
      obtain ⟨c, _, hc, h⟩ := h
      cases h
      rw [hname]
      exact .defaultChannel hhead ⟨hw, (lower_eq_iff (by decide)).mp hname⟩ hc
    · simp only [bind_ok_iff, Prod.exists, duration_eq_ok] at h
      obtain ⟨w, _, ⟨amount, unit, n, u, rfl, hn, h0, hu, rfl⟩, h⟩ := h
      cases h
      rw [hname]
      exact .defaultDuration hhead ⟨hw, (lower_eq_iff (by decide)).mp hname⟩ hn h0 hu
    · simp only [bind_ok_iff, Prod.exists, identifier_eq_ok] at h
      obtain ⟨name, _, ⟨rfl, hn⟩, h⟩ := h
      cases h
      rw [hname]
      exact .defaultOutput hhead ⟨hw, (lower_eq_iff (by decide)).mp hname⟩ hn
    · exact absurd h fail_ne_ok
  · intro h
    cases h with
    | @defaultVelocity _ word _ _ _ hs hv h1 h127 =>
      have hname : lower word.text = "velocity" := (lower_eq_iff (by decide)).mpr hs.2
      refine ⟨word, _, ⟨rfl, hs.1⟩, ?_⟩
      simp only [hname, bind_ok_iff, Prod.exists, int_eq_ok]
      exact ⟨_, _, _, ⟨rfl, hv, h1, by simpa using h127⟩, rfl⟩
    | @defaultChannel _ word _ _ _ hs hc =>
      have hname : lower word.text = "channel" := (lower_eq_iff (by decide)).mpr hs.2
      refine ⟨word, _, ⟨rfl, hs.1⟩, ?_⟩
      simp only [hname, bind_ok_iff, Prod.exists, channel_eq_ok]
      exact ⟨_, _, hc, rfl⟩
    | @defaultDuration _ word _ _ _ _ _ hs hn h0 hu =>
      have hname : lower word.text = "duration" := (lower_eq_iff (by decide)).mpr hs.2
      refine ⟨word, _, ⟨rfl, hs.1⟩, ?_⟩
      simp only [hname, bind_ok_iff, Prod.exists, duration_eq_ok]
      exact ⟨_, _, ⟨_, _, _, _, rfl, hn, h0, hu, rfl⟩, rfl⟩
    | @defaultOutput _ word _ _ _ hs hn =>
      obtain rfl := hn.2.2
      have hname : lower word.text = "output" := (lower_eq_iff (by decide)).mpr hs.2
      refine ⟨word, _, ⟨rfl, hs.1⟩, ?_⟩
      simp only [hname, bind_ok_iff, Prod.exists, identifier_eq_ok]
      exact ⟨_, _, ⟨rfl, hn⟩, rfl⟩
    | tempo h | send h | wait h | jump h | play h | signature h =>
      exact absurd (h.2.symm.trans hhead.2) (by decide)

/-- What modifiers start with, or nothing, is no punctuation. -/
theorem ModifiersAt.not_startsWith {limit : Nat} {as : List Assignment}
    (h : ModifiersAt limit as ts) (symbol : String) : ¬ StartsWith symbol ts := by
  cases h with
  | none => simp [StartsWith]
  | more ha =>
    rintro ⟨t, e, hp⟩
    have hword : t.kind = .word := by
      cases ha with
      | velocity hs => cases e; exact hs.elim (·.1) (·.1)
      | duration hs | channel hs | output hs => cases e; exact hs.1
    simp [Token.isPunct, hword] at hp

theorem playLine_eq_ok : playLine head ts = .ok (s, []) ↔ ∃ c cs as ts' ts'',
    ChordAt digitLimit c ts ts' ∧ ChordsAt digitLimit cs ts' ts'' ∧ ModifiersAt digitLimit as ts'' ∧
      (as.map Assignment.field).Nodup ∧ s = .play (playOf (c :: cs) as head.pos) := by
  simp only [playLine, bind_ok_iff, Prod.exists, chord_eq_ok]
  have hfree : ∀ (chords : List Chord) (as : List Assignment), ∀ a ∈ as,
      a.field.isSet { chords, pos := head.pos } = false := by
    intro chords as a _
    cases a <;> rfl
  have hplay : ∀ (chords : List Chord) (as : List Assignment),
      extend { chords, pos := head.pos } as = playOf chords as head.pos := by
    intro chords as
    simp [extend, playOf]
  constructor
  · rintro ⟨c, ts', ⟨hc, -⟩, cs, ts'', hcs, p, _, hp, h⟩
    cases h
    obtain ⟨as, has, hnd, -, rfl⟩ := (modifiers_eq_ok (Nat.le_refl _)).mp hp
    exact ⟨c, cs, as, ts', ts'', hc, chordsAt_of_moreChords hcs, has, hnd, by rw [hplay]⟩
  · rintro ⟨c, cs, as, ts', ts'', hc, hcs, has, hnd, rfl⟩
    have hcolon := hcs.not_colon (has.not_startsWith ":")
    refine ⟨c, ts', ⟨hc, fun _ => hcolon⟩, cs, ts'',
      hcs.moreChords (has.not_startsWith ":") (has.not_startsWith ",") (Nat.le_refl _), _, [], ?_,
      rfl⟩
    exact (modifiers_eq_ok (Nat.le_refl _)).mpr ⟨as, has, hnd, hfree _ _, (hplay _ _).symm⟩

/-- **Soundness**: a line that reads is a sentence. -/
theorem sentence_of_line (hl : line ts = .ok l) : Sentence digitLimit ts l := by
  obtain ⟨head, rest, k, rfl, hhead, h⟩ := line_eq_ok_iff_form.mp hl
  cases k with
  | label =>
    obtain ⟨name, colon, rfl, hn, hc, rfl⟩ := labelHead_eq_ok.mp h
    exact .label hhead hn hc
  | loop =>
    obtain ⟨count, colon, hcount, hc, rfl⟩ := loopHead_eq_ok.mp h
    exact .loop hhead hcount hc
  | setbpm =>
    obtain ⟨s, hs, rfl⟩ := plain_eq_ok.mp h
    obtain ⟨bpm, comma, ticks, b, n, rfl, hb, hb1, hc, hn, hn1, rfl⟩ := setTempo_eq_ok.mp hs
    exact .tempo hhead hb hb1 hc hn hn1
  | send =>
    obtain ⟨s, hs, rfl⟩ := plain_eq_ok.mp h
    obtain ⟨kind, comma, pitch, comma', velocity, on, c, n, v, output, ts', ts'', rfl, hkind, hch,
      hc, hp, hc', hv, h0, h127, ho, rfl⟩ := sendNote_eq_ok.mp hs
    exact .send hhead hkind hch hc hp hc' hv h0 h127 ho
  | wait =>
    obtain ⟨s, hs, rfl⟩ := plain_eq_ok.mp h
    obtain ⟨amount, unit, n, u, rfl, hn, h0, hu, rfl⟩ := waitLine_eq_ok.mp hs
    exact .wait hhead hn h0 hu
  | play =>
    obtain ⟨s, hs, rfl⟩ := plain_eq_ok.mp h
    obtain ⟨c, cs, as, ts', ts'', hc, hcs, has, hnd, rfl⟩ := playLine_eq_ok.mp hs
    exact .play hhead hc hcs has hnd
  | preset =>
    obtain ⟨s, hs, rfl⟩ := plain_eq_ok.mp h
    exact (defaultLine_eq_ok hhead).mp hs
  | signature =>
    obtain ⟨s, hs, rfl⟩ := plain_eq_ok.mp h
    obtain ⟨beats, comma, unit, b, u, rfl, hb, hb1, hb255, hc, hu, hu1, hu64, hp, rfl⟩ :=
      signatureLine_eq_ok.mp hs
    exact .signature hhead hb hb1 hb255 hc hu hu1 hu64 hp
  | jump =>
    obtain ⟨s, hs, rfl⟩ := plain_eq_ok.mp h
    obtain ⟨name, count, ts', rfl, hn, hcount, rfl⟩ := jumpLine_eq_ok.mp hs
    exact .jump hhead hn hcount

theorem line_of_form {k : Keyword} (hhead : head.Says k.word)
    (h : form head k rest = .ok (l, [])) : line (head :: rest) = .ok l :=
  line_eq_ok_iff_form.mpr ⟨head, rest, k, rfl, hhead, h⟩

/-- **Completeness**: a sentence reads, and means what the grammar says. -/
theorem line_of_sentence (h : Sentence digitLimit ts l) : line ts = .ok l := by
  have hsentence := h
  cases h with
  | label hhead hn hc =>
    obtain rfl := hn.2.2
    exact line_of_form (k := .label) hhead (labelHead_eq_ok.mpr ⟨_, _, rfl, hn, hc, rfl⟩)
  | loop hhead hcount hc =>
    exact line_of_form (k := .loop) hhead (loopHead_eq_ok.mpr ⟨_, _, hcount, hc, rfl⟩)
  | tempo hhead hb hb1 hc hn hn1 =>
    refine line_of_form (k := .setbpm) hhead (plain_eq_ok.mpr ⟨_, setTempo_eq_ok.mpr ?_, rfl⟩)
    exact ⟨_, _, _, _, _, rfl, hb, hb1, hc, hn, hn1, rfl⟩
  | send hhead hkind hch hc hp hc' hv h0 h127 ho =>
    refine line_of_form (k := .send) hhead (plain_eq_ok.mpr ⟨_, sendNote_eq_ok.mpr ?_, rfl⟩)
    exact ⟨_, _, _, _, _, _, _, _, _, _, _, _, rfl, hkind, hch, hc, hp, hc', hv, h0, h127, ho, rfl⟩
  | wait hhead hn h0 hu =>
    refine line_of_form (k := .wait) hhead (plain_eq_ok.mpr ⟨_, waitLine_eq_ok.mpr ?_, rfl⟩)
    exact ⟨_, _, _, _, rfl, hn, h0, hu, rfl⟩
  | jump hhead hn hcount =>
    obtain rfl := hn.2.2
    refine line_of_form (k := .jump) hhead (plain_eq_ok.mpr ⟨_, jumpLine_eq_ok.mpr ?_, rfl⟩)
    exact ⟨_, _, _, rfl, hn, hcount, rfl⟩
  | play hhead hc hcs has hnd =>
    refine line_of_form (k := .play) hhead (plain_eq_ok.mpr ⟨_, playLine_eq_ok.mpr ?_, rfl⟩)
    exact ⟨_, _, _, _, _, hc, hcs, has, hnd, rfl⟩
  | signature hhead hb hb1 hb255 hc hu hu1 hu64 hp =>
    refine line_of_form (k := .signature) hhead
      (plain_eq_ok.mpr ⟨_, signatureLine_eq_ok.mpr ?_, rfl⟩)
    exact ⟨_, _, _, _, _, rfl, hb, hb1, hb255, hc, hu, hu1, hu64, hp, rfl⟩
  | defaultVelocity hhead | defaultChannel hhead | defaultDuration hhead | defaultOutput hhead =>
    refine line_of_form (k := .preset) hhead (plain_eq_ok.mpr ⟨_, ?_, rfl⟩)
    exact (defaultLine_eq_ok hhead).mpr hsentence

end

/-- **The reader takes exactly the grammar** within the limit of the conversion. Some tokens read as a
line exactly when they are a sentence that means it and whose numbers have no more digits than are
converted. -/
theorem line_eq_ok_iff_sentence (ts : List Token) (l : Line) :
    line ts = .ok l ↔ Sentence digitLimit ts l :=
  ⟨sentence_of_line, line_of_sentence⟩

/-! ## A number that is too long -/

/-- The number one behind as many zeros as digits are converted. -/
def longOne : List Char := List.replicate digitLimit '0' ++ ['1']

def longToken : Token := ⟨.int, String.ofList longOne, 1, 6⟩

def longWait : List Token := [⟨.word, "WAIT", 1, 1⟩, longToken, ⟨.word, "t", 1, 4308⟩]

theorem digits_longToken : longToken.digits = longOne := by
  have htext : longToken.text.toList = longOne := String.toList_ofList
  rw [← htext, Token.digits]
  split
  · rename_i ds hminus
    rw [htext] at hminus
    cases hminus
  · rfl

theorem length_longOne : longOne.length = digitLimit + 1 := by
  rw [longOne, List.length_append, List.length_replicate]
  rfl

theorem number_longOne : Text.number longOne = 1 := by
  have hzeros : ∀ k, (List.replicate k '0').foldl
      (fun n c => n * 10 + (Text.digit? c).getD 0) 0 = 0 := by
    intro k
    induction k with
    | zero => rfl
    | succ k ih => exact ih
  rw [Text.number, longOne, List.foldl_append, hzeros]
  rfl

theorem value_longToken : longToken.value = 1 := by
  have htext : longToken.text.toList = longOne := String.toList_ofList
  rw [Token.value, htext]
  split
  · rename_i ds hminus
    cases hminus
  · rw [number_longOne]
    rfl

theorem line_wait_error {head amount : Token} {rest : List Token} {f : Failure}
    (hhead : head.Says "WAIT") (hkind : amount.kind = .int) (hf : number amount = .error f) :
    line (head :: amount :: rest) = .error f := by
  simp only [line, keyword, word, any, bind, Except.bind, hhead.1, hhead.2, if_true,
    Keyword.ofWord?, form, plain, waitLine, duration, int, hkind, ne_eq, not_true_eq_false,
    if_false, hf]

/-- **The language has no limit, the reader has**: a wait for one tick is a sentence also behind so many
zeros, and it does not read. -/
theorem line_longWait :
    Sentence (digitLimit + 1) longWait (.plain (.wait ⟨1, .ticks, ⟨1, 1⟩⟩)) ∧
      line longWait = .error ⟨.tooManyDigits (digitLimit + 1), some longToken⟩ := by
  have hhead : Token.Says ⟨.word, "WAIT", 1, 1⟩ "WAIT" := ⟨rfl, by decide +kernel⟩
  have hlength : longToken.digits.length = digitLimit + 1 := by
    rw [digits_longToken, length_longOne]
  constructor
  · exact .wait hhead ⟨rfl, hlength.le, value_longToken⟩ (by decide) ⟨rfl, by decide⟩
  · refine line_wait_error hhead rfl ?_
    rw [number, hlength, if_neg (Nat.not_succ_le_self _)]
    rfl

end Ostinato.Source
