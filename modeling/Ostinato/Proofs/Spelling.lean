import Mathlib
import Ostinato.Source.Line

/-!
# How pitches and chords are spelled

What a pitch literal and a chord suffix look like, said character by character, and that the readers
of both take exactly these. `Pitch.Literal` puts a literal together from its letter, its accidental
and its octave; `ChordKind.Spelled` lists the suffixes; `ChordKind.reach` is how far a chord goes
above its root, which is all that decides whether its notes exist.
-/

namespace Ostinato

theorem eq_or_eq_toUpper_of_toLower {c d : Char} (h : c.toLower = d) : c = d ∨ c = d.toUpper := by
  by_cases hc : c.isUpper
  · right
    rw [← h, Char.toUpper_toLower_eq_toUpper,
      Char.toUpper_eq_of_not_isLower (Char.not_isLower_of_isUpper hc)]
  · left
    rw [← h, Char.toLower_eq_of_not_isUpper hc]

namespace Pitch

/-! ## Pitch literals -/

/-- A sharp, a flat or nothing, and the semitones it adds. -/
inductive Accidental : List Char → Int → Prop where
  | natural : Accidental [] 0
  | sharp {c : Char} : c ∈ ['s', 'S', '#'] → Accidental [c] 1
  | flat {c : Char} : c ∈ ['f', 'F', 'b', 'B'] → Accidental [c] (-1)

/-- A run of digits. One line feed may stand behind it. -/
inductive Numeral : List Char → Nat → Prop where
  | mk {digits tail : List Char} : digits ≠ [] → (∀ d ∈ digits, Text.isDigit d = true) →
      tail = [] ∨ tail = ['\n'] → Numeral (digits ++ tail) (Text.number digits)

inductive Octave : List Char → Int → Prop where
  | plain {cs : List Char} {n : Nat} : Numeral cs n → Octave cs n
  | minus {cs : List Char} {n : Nat} : Numeral cs n → Octave ('-' :: cs) (-n)

/-- A letter, an accidental and an octave. An octave has twelve notes, and octave -1 starts at
note 0. -/
inductive Literal : List Char → Int → Prop where
  | mk {letter : Char} {accidental octave : List Char} {pc k o : Int} :
      natural? letter = some pc → Accidental accidental k → Octave octave o →
      Literal (letter :: (accidental ++ octave)) ((o + 1) * 12 + pc + k)

theorem accidental?_eq_some {c : Char} {k : Int} : accidental? c = some k ↔ Accidental [c] k := by
  constructor
  · intro h
    unfold accidental? at h
    split at h <;> rename_i hc <;> cases h <;>
      rcases eq_or_eq_toUpper_of_toLower hc with rfl | rfl
    all_goals first | exact .sharp (by decide) | exact .flat (by decide)
  · rintro (_ | hc | hc)
    · fin_cases hc <;> rfl
    · fin_cases hc <;> rfl

theorem Accidental.eq {cs : List Char} {k : Int} (h : Accidental cs k) :
    cs = [] ∧ k = 0 ∨ ∃ c, cs = [c] ∧ accidental? c = some k := by
  cases h with
  | natural => exact .inl ⟨rfl, rfl⟩
  | sharp hc => exact .inr ⟨_, rfl, accidental?_eq_some.mpr (.sharp hc)⟩
  | flat hc => exact .inr ⟨_, rfl, accidental?_eq_some.mpr (.flat hc)⟩

theorem numeral_iff {cs : List Char} {n : Nat} :
    Numeral cs n ↔ cs.takeWhile Text.isDigit ≠ [] ∧
      (cs.dropWhile Text.isDigit = [] ∨ cs.dropWhile Text.isDigit = ['\n']) ∧
      Text.number (cs.takeWhile Text.isDigit) = n := by
  constructor
  · rintro ⟨hne, hd, ht⟩
    have hn : Text.isDigit '\n' = false := by decide
    rcases ht with rfl | rfl
    · simp [List.takeWhile_eq_self_iff.mpr hd, List.dropWhile_eq_nil_iff.mpr hd, hne]
    · simp [List.takeWhile_append_of_pos hd, List.dropWhile_append_of_pos hd, hn, hne]
  · rintro ⟨hne, ht, rfl⟩
    have h := Numeral.mk hne (fun d hd => List.mem_takeWhile_imp hd) ht
    rwa [List.takeWhile_append_dropWhile] at h

theorem Numeral.head {c : Char} {cs : List Char} {n : Nat} (h : Numeral (c :: cs) n) :
    Text.isDigit c = true := by
  obtain ⟨hne, -⟩ := numeral_iff.mp h
  by_contra hc
  exact hne (List.takeWhile_cons_of_neg (by simpa using hc))

theorem Octave.head {c : Char} {cs : List Char} {o : Int} (h : Octave (c :: cs) o) :
    Text.isDigit c = true ∨ c = '-' := by
  cases h with
  | plain h => exact .inl h.head
  | minus => exact .inr rfl

theorem octave_minus {cs : List Char} {o : Int} :
    Octave ('-' :: cs) o ↔ ∃ n : Nat, Numeral cs n ∧ -(n : Int) = o := by
  constructor
  · rintro (h | h)
    · exact absurd h.head (by decide)
    · exact ⟨_, h, rfl⟩
  · rintro ⟨n, h, rfl⟩
    exact .minus h

theorem octave_plain {cs : List Char} {o : Int} (hcs : ∀ r, cs ≠ '-' :: r) :
    Octave cs o ↔ ∃ n : Nat, Numeral cs n ∧ (n : Int) = o := by
  constructor
  · rintro (h | h)
    · exact ⟨_, h, rfl⟩
    · exact absurd rfl (hcs _)
  · rintro ⟨n, h, rfl⟩
    exact .plain h

theorem octave?_eq_some {cs : List Char} {o : Int} : octave? cs = some o ↔ Octave cs o := by
  unfold octave?
  split
  rename_i neg body hbody
  dsimp only
  split at hbody <;> cases hbody
  · simp only [octave_minus, numeral_iff, Bool.or_eq_true, Bool.not_eq_true',
      Option.ite_none_left_eq_some, not_or, Bool.not_eq_false, List.isEmpty_iff, beq_iff_eq,
      if_true, Option.some.injEq, and_assoc, exists_and_left, exists_eq_left', ne_eq]
  · rename_i hr
    simp only [octave_plain hr, numeral_iff, Bool.or_eq_true, Bool.not_eq_true',
      Option.ite_none_left_eq_some, not_or, Bool.not_eq_false, List.isEmpty_iff, beq_iff_eq,
      Bool.false_eq_true, if_false, Option.some.injEq, and_assoc, exists_and_left,
      exists_eq_left', ne_eq]

theorem Octave.not_accidental {c : Char} {cs : List Char} {o : Int} (h : Octave (c :: cs) o) :
    accidental? c = none ∧ isLongS c = false := by
  rcases h.head with hd | rfl
  · constructor
    · by_contra ha
      obtain ⟨k, hk⟩ := Option.ne_none_iff_exists'.mp ha
      rcases accidental?_eq_some.mp hk with _ | hc | hc <;> fin_cases hc <;> revert hd <;> decide
    · by_contra hl
      have hc : c = Char.ofNat 0x17f := by
        rw [← c.ofNat_toNat, show c.toNat = 0x17f by simpa [isLongS] using hl]
      subst hc
      revert hd
      decide
  · decide

theorem split?_eq_some {cs : List Char} {pc o : Int} {a : Option Char} :
    split? cs = some (pc, a, o) ↔ ∃ letter octave, cs = letter :: (a.toList ++ octave) ∧
      natural? letter = some pc ∧ Octave octave o ∧
      ∀ c ∈ a, (accidental? c).isSome ∨ isLongS c := by
  constructor
  · intro h
    unfold split? at h
    split at h
    · cases h
    · rename_i letter rest
      split at h
      · cases h
      · rename_i pc' hpc
        split at h
        · rename_i c more
          split at h
          · rename_i hc
            obtain ⟨o', ho, e⟩ := Option.map_eq_some_iff.mp h
            cases e
            exact ⟨letter, more, rfl, hpc, octave?_eq_some.mp ho, by simpa using hc⟩
          · obtain ⟨o', ho, e⟩ := Option.map_eq_some_iff.mp h
            cases e
            exact ⟨letter, c :: more, rfl, hpc, octave?_eq_some.mp ho, by simp⟩
        · cases h
  · rintro ⟨letter, octave, rfl, hpc, ho, ha⟩
    cases a with
    | some c => simp [split?, hpc, ha c rfl, octave?_eq_some.mpr ho]
    | none =>
      cases octave with
      | nil => exact absurd (octave?_eq_some.mpr ho) (by simp [octave?])
      | cons c more =>
        obtain ⟨h1, h2⟩ := ho.not_accidental
        simp [split?, hpc, h1, h2, octave?_eq_some.mpr ho]

theorem parse_eq_ok {literal : String} {n : Int} :
    parse literal = .ok n ↔ Literal literal.toList n ∧
      literal.toList.countP Text.isDigit ≤ Text.digitLimit ∧ 0 ≤ n ∧ n ≤ maxNote := by
  constructor
  · intro h
    unfold parse at h
    split at h
    · cases h
    · rename_i pc a o hsplit
      obtain ⟨letter, octave, hcs, hpc, ho, -⟩ := split?_eq_some.mp hsplit
      dsimp only at h
      split at h
      · cases h
      · rename_i k hk
        split_ifs at h with hd hr
        · cases h
          have ha : Accidental a.toList k := by
            cases a with
            | none =>
              cases hk
              exact .natural
            | some c =>
              dsimp only at hk
              split at hk <;> cases hk
              exact accidental?_eq_some.mp ‹_›
          exact ⟨hcs ▸ .mk hpc ha ho, Nat.le_of_not_lt hd, hr⟩
  · rintro ⟨hl, hd, hr⟩
    generalize hcs : literal.toList = cs at hl
    obtain @⟨letter, accidental, octave, pc, k, o, hpc, ha, ho⟩ := hl
    rcases ha.eq with ⟨rfl, rfl⟩ | ⟨c, rfl, hk⟩
    · have hs : split? literal.toList = some (pc, none, o) :=
        split?_eq_some.mpr ⟨letter, octave, hcs, hpc, ho, by simp⟩
      simp only [parse, hs, if_neg (Nat.not_lt.mpr hd)]
      exact if_pos hr
    · have hs : split? literal.toList = some (pc, some c, o) :=
        split?_eq_some.mpr ⟨letter, octave, hcs, hpc, ho, by simp [hk]⟩
      simp only [parse, hs, hk, if_neg (Nat.not_lt.mpr hd)]
      exact if_pos hr

end Pitch

/-! ## Chords -/

namespace ChordKind

/-- The suffixes that are told apart by case. -/
def signs : List (String × ChordKind) :=
  [("5", fifth), ("M", major), ("m", minor), ("M7", major7), ("m7", minor7)]

/-- The suffixes that are words, in small letters. -/
def words : List (String × ChordKind) :=
  [("maj", major), ("min", minor), ("maj7", major7), ("min7", minor7)]

/-- What may stand behind the colon of a chord. -/
def Spelled (kind : ChordKind) (suffix : String) : Prop :=
  (suffix, kind) ∈ signs ∨ (Source.lower suffix, kind) ∈ words

/-- Semitones from the root of a chord to its highest note. -/
def reach : ChordKind → Int
  | raw | unknown _ => 0
  | fifth | major | minor => 7
  | major7 => 11
  | minor7 => 10

theorem ofSuffix?_eq_some {suffix : String} {kind : ChordKind} :
    ofSuffix? suffix = some kind ↔ kind.Spelled suffix := by
  constructor
  · intro h
    unfold ofSuffix? at h
    split at h
    all_goals try (cases h; exact .inl (by decide))
    split at h <;> cases h <;> rename_i hw <;> right <;> unfold Source.lower <;> rw [hw] <;> decide
  · rintro (h | h)
    · simp only [signs, List.mem_cons, Prod.mk.injEq, List.not_mem_nil, or_false] at h
      rcases h with ⟨rfl, rfl⟩ | ⟨rfl, rfl⟩ | ⟨rfl, rfl⟩ | ⟨rfl, rfl⟩ | ⟨rfl, rfl⟩ <;> rfl
    · simp only [words, List.mem_cons, Prod.mk.injEq, List.not_mem_nil, or_false] at h
      -- No sign is a word, whatever its case.
      rcases h with ⟨hl, rfl⟩ | ⟨hl, rfl⟩ | ⟨hl, rfl⟩ | ⟨hl, rfl⟩ <;> unfold ofSuffix? <;> split
      all_goals first
        | exact absurd hl (by decide)
        | (unfold Source.lower at hl; rw [hl]; rfl)

theorem parse_eq_ok {suffix : String} {kind : ChordKind} :
    parse suffix = .ok kind ↔ kind.Spelled suffix := by
  rw [← ofSuffix?_eq_some, parse]
  split <;> simp_all

/-- A suffix names none of the kinds that have no suffix. -/
theorem Spelled.ne {suffix : String} {kind : ChordKind} (h : kind.Spelled suffix) :
    kind ≠ .raw ∧ ∀ name, kind ≠ .unknown name := by
  rcases h with h | h
  · simp only [signs, List.mem_cons, Prod.mk.injEq, List.not_mem_nil, or_false] at h
    rcases h with ⟨-, rfl⟩ | ⟨-, rfl⟩ | ⟨-, rfl⟩ | ⟨-, rfl⟩ | ⟨-, rfl⟩ <;> simp
  · simp only [words, List.mem_cons, Prod.mk.injEq, List.not_mem_nil, or_false] at h
    rcases h with ⟨-, rfl⟩ | ⟨-, rfl⟩ | ⟨-, rfl⟩ | ⟨-, rfl⟩ <;> simp

end ChordKind

theorem Chord.notes_ok_iff {c : Chord} (hc : ∀ name, c.kind ≠ .unknown name) :
    (∃ notes, c.notes = .ok notes) ↔ c.root + c.kind.reach ≤ maxNote := by
  obtain ⟨root, kind⟩ := c
  have htop : ∃ steps, kind.intervals? = some steps ∧
      (steps.map (root + ·)).getLastD root = root + kind.reach := by
    cases kind with
    | unknown name => exact absurd rfl (hc name)
    | _ => exact ⟨_, rfl, by simp [ChordKind.reach]⟩
  obtain ⟨steps, hsteps, htop⟩ := htop
  simp only [Chord.notes, hsteps, htop]
  constructor
  · rintro ⟨notes, h⟩
    split at h
    · assumption
    · split at h <;> cases h
  · intro h
    exact ⟨_, if_pos h⟩

end Ostinato
