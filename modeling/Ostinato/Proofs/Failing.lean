import Ostinato.Proofs.Cutting
import Ostinato.Proofs.Nesting

/-!
# Where reading a line fails

A reader that is given some of a line's tokens leaves tokens of the line, or it fails at one of them
or at the end of the line, with a fault of the text or at a number that is too long (`Sound`). There
is one lemma for each reader, put together as the reader is. The tokens have to be spelled as those of
a line are: only then does a pitch literal have an accidental that is one.
-/

namespace Ostinato

theorem Pitch.isLongS_of_parse {literal : String} {a : Char}
    (h : Pitch.parse literal = .error (.strangeAccidental a)) :
    isLongS a = true ∧ a ∈ literal.toList := by
  unfold Pitch.parse at h
  split at h
  · cases h
  · rename_i pc accidental octave hsplit
    obtain ⟨letter, rest, hcs, -, -, ha⟩ := split?_eq_some.mp hsplit
    cases accidental with
    | none =>
      dsimp only at h
      split_ifs at h <;> cases h
    | some b =>
      have hb := ha b rfl
      cases hs : accidental? b with
      | some k =>
        simp only [hs] at h
        split_ifs at h <;> cases h
      | none =>
        simp only [hs] at h hb
        cases h
        exact ⟨hb.resolve_left Bool.false_ne_true, by simp [hcs]⟩

namespace Source

theorem not_isLongS_of_isWord {cs : List Char} (h : isWord cs = true) {a : Char} (ha : a ∈ cs) :
    Pitch.isLongS a = false := by
  by_contra hlong
  rw [Bool.not_eq_false, Pitch.isLongS, beq_iff_eq] at hlong
  obtain rfl : a = 'ſ' := Char.toNat_inj.mp hlong
  exact absurd (isWordMore_of_isWord h _ ha) (by decide)

/-- The number of an integer token is too long to be converted, and a fault says so. -/
def Token.IsTooLong (t : Token) (f : Fault) : Prop :=
  t.kind = .int ∧ Text.digitLimit < t.digits.length ∧ f = .tooManyDigits t.digits.length

structure Failure.On (all : List Token) (f : Failure) : Prop where
  cause : f.fault.isSyntax = true ∨ ∃ t ∈ f.token, t.IsTooLong f.fault
  mem : ∀ t ∈ f.token, t ∈ all

/-- A result of reading tokens of a line. -/
def Sound {α : Type} (all : List Token) (P : α → Prop) : Except Failure (α × List Token) → Prop
  | .ok (a, rest) => P a ∧ rest ⊆ all
  | .error f => f.On all

section
variable {α β : Type} {all ts : List Token} {P : α → Prop} {Q : β → Prop}

theorem Sound.bind {x : Except Failure (α × List Token)}
    {next : α × List Token → Except Failure (β × List Token)} (hx : Sound all P x)
    (hnext : ∀ a rest, P a → rest ⊆ all → Sound all Q (next (a, rest))) :
    Sound all Q (x >>= next) := by
  cases x with
  | error f => exact hx
  | ok r => exact hnext r.1 r.2 hx.1 hx.2

theorem sound_ok {a : α} (ha : P a) (hts : ts ⊆ all) : Sound all P (.ok (a, ts)) :=
  ⟨ha, hts⟩

theorem sound_fail {f : Fault} {t : Token} (hf : f.isSyntax = true) (ht : t ∈ all) :
    Sound all P (fail f t) :=
  ⟨.inl hf, fun _ hu => Option.some.inj hu ▸ ht⟩

theorem sound_number {t : Token} (hkind : t.kind = .int) (ht : t ∈ all)
    {next : Int → Except Failure (α × List Token)} (hnext : Sound all P (next t.value)) :
    Sound all P (number t >>= next) := by
  unfold number
  split
  · exact hnext
  · rename_i hlong
    exact ⟨.inr ⟨t, rfl, hkind, Nat.lt_of_not_le hlong, rfl⟩, fun _ hu => Option.some.inj hu ▸ ht⟩

/-! ## Parts -/

theorem any_sound (what : String) (hts : ts ⊆ all) : Sound all (· ∈ all) (any what ts) := by
  cases ts with
  | nil => exact ⟨.inl rfl, fun _ hu => by cases hu⟩
  | cons t rest => exact List.cons_subset.mp hts

theorem word_sound (what : String) (hts : ts ⊆ all) : Sound all (· ∈ all) (word what ts) := by
  refine (any_sound what hts).bind fun t rest ht hrest => ?_
  dsimp only
  split
  · exact sound_ok ht hrest
  · exact sound_fail rfl ht

theorem punct_sound (symbol : String) (hts : ts ⊆ all) : Sound all (· ∈ all) (punct symbol ts) := by
  refine (any_sound _ hts).bind fun t rest ht hrest => ?_
  dsimp only
  split
  · exact sound_ok ht hrest
  · exact sound_fail rfl ht

theorem int_sound (what : String) (least : Int) (greatest : Option Int) (hts : ts ⊆ all) :
    Sound all (·.2 ∈ all) (int what least greatest ts) := by
  refine (any_sound what hts).bind fun t rest ht hrest => ?_
  dsimp only
  split
  · exact sound_fail rfl ht
  · rename_i hkind
    refine sound_number (not_not.mp hkind) ht ?_
    split_ifs
    · exact sound_fail rfl ht
    · exact sound_ok ht hrest

theorem identifier_sound (what : String) (hts : ts ⊆ all) :
    Sound all (· ∈ all) (identifier what ts) := by
  refine (word_sound what hts).bind fun t rest ht hrest => ?_
  dsimp only
  split
  · exact sound_ok ht hrest
  · exact sound_fail rfl ht

theorem channel_sound (hts : ts ⊆ all) : Sound all (fun _ => True) (channel ts) := by
  refine (int_sound _ _ _ hts).bind fun ⟨n, t⟩ rest ht hrest => ?_
  have hplain : Sound all (fun _ : Int => True)
      (if 1 ≤ n ∧ n ≤ channelCount then .ok (n - 1, rest) else fail (.channelOutOfRange n) t) := by
    split
    · exact sound_ok trivial hrest
    · exact sound_fail rfl ht
  dsimp only
  cases rest with
  | nil => exact hplain
  | cons suffix rest =>
    dsimp only
    split
    · split
      · exact sound_fail rfl ht
      · split
        · exact sound_ok trivial (List.cons_subset.mp hrest).2
        · exact sound_fail rfl ht
    · exact hplain

theorem chordKind_sound (hts : ts ⊆ all) : Sound all (fun _ => True) (chordKind ts) := by
  cases ts with
  | nil => exact sound_ok trivial hts
  | cons colon rest =>
    rw [chordKind]
    split
    · refine (any_sound _ (List.cons_subset.mp hts).2).bind fun suffix rest ht hrest => ?_
      dsimp only
      split
      · exact sound_fail rfl ht
      · split
        · exact sound_ok trivial hrest
        · exact sound_fail rfl ht
    · exact sound_ok trivial hts

theorem duration_sound (head : Token) (hts : ts ⊆ all) :
    Sound all (fun _ => True) (duration head ts) := by
  refine (int_sound _ _ _ hts).bind fun _ rest _ hrest => ?_
  refine (word_sound _ hrest).bind fun t rest ht hrest => ?_
  dsimp only
  split
  · exact sound_ok trivial hrest
  · exact sound_fail rfl ht

theorem setTempo_sound (head : Token) (hts : ts ⊆ all) :
    Sound all (fun _ => True) (setTempo head ts) := by
  refine (int_sound _ _ _ hts).bind fun _ rest _ hrest => ?_
  refine (punct_sound _ hrest).bind fun _ rest _ hrest => ?_
  exact (int_sound _ _ _ hrest).bind fun _ rest _ hrest => sound_ok trivial hrest

theorem outputClause_sound (hts : ts ⊆ all) : Sound all (fun _ => True) (outputClause ts) := by
  cases ts with
  | nil => exact sound_ok trivial hts
  | cons t rest =>
    refine (punct_sound _ hts).bind fun _ rest _ hrest => ?_
    refine (word_sound _ hrest).bind fun clause rest ht hrest => ?_
    dsimp only
    split
    · exact sound_fail rfl ht
    · refine (punct_sound _ hrest).bind fun _ rest _ hrest => ?_
      exact (identifier_sound _ hrest).bind fun _ rest _ hrest => sound_ok trivial hrest

theorem waitLine_sound (head : Token) (hts : ts ⊆ all) :
    Sound all (fun _ => True) (waitLine head ts) :=
  (duration_sound head hts).bind fun _ _ _ hrest => sound_ok trivial hrest

theorem jumpLine_sound (head : Token) (hts : ts ⊆ all) :
    Sound all (fun _ => True) (jumpLine head ts) := by
  refine (identifier_sound _ hts).bind fun _ rest _ hrest => ?_
  cases rest with
  | nil => exact sound_ok trivial hrest
  | cons t rest =>
    exact (int_sound _ _ _ hrest).bind fun _ rest _ hrest => sound_ok trivial hrest

theorem modifierRead_sound (m : Modifier) (t : Token) (p : Play) (hts : ts ⊆ all) :
    Sound all (fun _ => True) (m.read t p ts) := by
  cases m with
  | duration => exact (duration_sound t hts).bind fun _ _ _ hrest => sound_ok trivial hrest
  | velocity =>
    refine (punct_sound _ hts).bind fun _ rest _ hrest => ?_
    exact (int_sound _ _ _ hrest).bind fun _ rest _ hrest => sound_ok trivial hrest
  | channel => exact (channel_sound hts).bind fun _ _ _ hrest => sound_ok trivial hrest
  | output => exact (identifier_sound _ hts).bind fun _ _ _ hrest => sound_ok trivial hrest

theorem modifiers_sound (n : Nat) (p : Play) (hts : ts ⊆ all) :
    Sound all (fun _ => True) (modifiers n p ts) := by
  induction n generalizing p ts with
  | zero => exact sound_ok trivial hts
  | succ n ih =>
    cases ts with
    | nil => exact sound_ok trivial hts
    | cons t rest =>
      refine (word_sound _ hts).bind fun t rest ht hrest => ?_
      dsimp only
      split
      · exact sound_fail rfl ht
      · rename_i m _
        split
        · exact sound_fail rfl ht
        · exact (modifierRead_sound m t p hrest).bind fun p rest _ hrest => ih p hrest

theorem defaultLine_sound (head : Token) (hts : ts ⊆ all) :
    Sound all (fun _ => True) (defaultLine head ts) := by
  refine (word_sound _ hts).bind fun t rest ht hrest => ?_
  dsimp only
  split
  · exact (int_sound _ _ _ hrest).bind fun _ rest _ hrest => sound_ok trivial hrest
  · exact (channel_sound hrest).bind fun _ rest _ hrest => sound_ok trivial hrest
  · exact (duration_sound t hrest).bind fun _ rest _ hrest => sound_ok trivial hrest
  · exact (identifier_sound _ hrest).bind fun _ rest _ hrest => sound_ok trivial hrest
  · exact sound_fail rfl ht

theorem signatureLine_sound (head : Token) (hts : ts ⊆ all) :
    Sound all (fun _ => True) (signatureLine head ts) := by
  refine (int_sound _ _ _ hts).bind fun _ rest _ hrest => ?_
  refine (punct_sound _ hrest).bind fun _ rest _ hrest => ?_
  refine (int_sound _ _ _ hrest).bind fun ⟨unit, t⟩ rest ht hrest => ?_
  dsimp only
  split
  · exact sound_ok trivial hrest
  · exact sound_fail rfl ht

theorem keyword_sound (hts : ts ⊆ all) : Sound all (fun _ => True) (keyword ts) := by
  refine (word_sound _ hts).bind fun t rest ht hrest => ?_
  dsimp only
  split
  · exact sound_ok trivial hrest
  · exact sound_fail rfl ht

theorem labelHead_sound (hts : ts ⊆ all) : Sound all (fun _ => True) (labelHead ts) := by
  refine (identifier_sound _ hts).bind fun _ rest _ hrest => ?_
  exact (punct_sound _ hrest).bind fun _ rest _ hrest => sound_ok trivial hrest

theorem loopHead_sound (head : Token) (hts : ts ⊆ all) :
    Sound all (fun _ => True) (loopHead head ts) := by
  have hcolon : ∀ (count : Option Int) (rest : List Token), rest ⊆ all → Sound all (fun _ => True)
      (punct ":" rest >>= fun r => .ok (Line.loop count head.pos, r.2)) := fun count rest hrest =>
    (punct_sound _ hrest).bind fun _ rest _ hrest => sound_ok trivial hrest
  unfold loopHead
  cases ts with
  | nil => exact hcolon none [] hts
  | cons t rest =>
    dsimp only
    split
    · exact (int_sound _ _ _ hts).bind fun r rest _ hrest => hcolon (some r.1) rest hrest
    · exact hcolon none _ hts

theorem plain_sound {r : Reader Statement} (h : Sound all (fun _ => True) (r ts)) :
    Sound all (fun _ => True) (plain r ts) :=
  h.bind fun _ _ _ hrest => sound_ok trivial hrest

/-! ## Pitches -/

variable (hall : ∀ t ∈ all, t.kind.Spells t.text.toList)
include hall

theorem pitch_sound (hts : ts ⊆ all) : Sound all (·.2 ∈ all) (pitch ts) := by
  refine (any_sound _ hts).bind fun t rest ht hrest => ?_
  dsimp only
  split
  · rename_i hkind
    refine sound_number hkind ht ?_
    split
    · exact sound_ok ht hrest
    · exact sound_fail rfl ht
  · exact sound_fail rfl ht
  · rename_i hkind
    split
    · exact sound_ok ht hrest
    · rename_i f hf
      refine sound_fail ?_ ht
      cases f with
      | strangeAccidental a =>
        obtain ⟨hlong, hmem⟩ := Pitch.isLongS_of_parse hf
        have hspells := hall t ht
        rw [hkind] at hspells
        rw [not_isLongS_of_isWord hspells hmem] at hlong
        cases hlong
      | _ => rfl

theorem chord_sound (hts : ts ⊆ all) : Sound all (fun _ => True) (chord ts) := by
  refine (pitch_sound hall hts).bind fun ⟨root, start⟩ rest ht hrest => ?_
  refine (chordKind_sound hrest).bind fun kind rest _ hrest => ?_
  dsimp only
  split
  · exact sound_ok trivial hrest
  · exact sound_fail rfl ht

theorem moreChords_sound (n : Nat) (hts : ts ⊆ all) :
    Sound all (fun _ => True) (moreChords n ts) := by
  induction n generalizing ts with
  | zero => exact sound_ok trivial hts
  | succ n ih =>
    cases ts with
    | nil => exact sound_ok trivial hts
    | cons t rest =>
      rw [moreChords]
      split
      · refine (chord_sound hall (List.cons_subset.mp hts).2).bind fun _ rest _ hrest => ?_
        exact (ih hrest).bind fun _ rest _ hrest => sound_ok trivial hrest
      · exact sound_ok trivial hts

theorem sendNote_sound (head : Token) (hts : ts ⊆ all) :
    Sound all (fun _ => True) (sendNote head ts) := by
  refine (word_sound _ hts).bind fun kind rest ht hrest => ?_
  dsimp only
  split
  · exact sound_fail rfl ht
  · refine (channel_sound hrest).bind fun _ rest _ hrest => ?_
    refine (punct_sound _ hrest).bind fun _ rest _ hrest => ?_
    refine (pitch_sound hall hrest).bind fun _ rest _ hrest => ?_
    refine (punct_sound _ hrest).bind fun _ rest _ hrest => ?_
    refine (int_sound _ _ _ hrest).bind fun _ rest _ hrest => ?_
    exact (outputClause_sound hrest).bind fun _ rest _ hrest => sound_ok trivial hrest

theorem playLine_sound (head : Token) (hts : ts ⊆ all) :
    Sound all (fun _ => True) (playLine head ts) := by
  refine (chord_sound hall hts).bind fun _ rest _ hrest => ?_
  refine (moreChords_sound hall _ hrest).bind fun _ rest _ hrest => ?_
  exact (modifiers_sound _ _ hrest).bind fun _ rest _ hrest => sound_ok trivial hrest

/-! ## Lines -/

theorem form_sound (head : Token) (k : Keyword) (hts : ts ⊆ all) :
    Sound all (fun _ => True) (form head k ts) := by
  cases k with
  | label => exact labelHead_sound hts
  | loop => exact loopHead_sound head hts
  | setbpm => exact plain_sound (setTempo_sound head hts)
  | send => exact plain_sound (sendNote_sound hall head hts)
  | wait => exact plain_sound (waitLine_sound head hts)
  | play => exact plain_sound (playLine_sound hall head hts)
  | preset => exact plain_sound (defaultLine_sound head hts)
  | signature => exact plain_sound (signatureLine_sound head hts)
  | jump => exact plain_sound (jumpLine_sound head hts)

/-- A line fails at one of its tokens or at its end, with a fault of the text. -/
theorem line_error {f : Failure} (h : line all = .error f) : f.On all := by
  have hstart := keyword_sound (List.Subset.refl all)
  unfold line at h
  cases hk : keyword all with
  | error e =>
    rw [hk] at h hstart
    cases h
    exact hstart
  | ok r =>
    obtain ⟨⟨head, k⟩, rest⟩ := r
    rw [hk] at h hstart
    have hform := form_sound hall head k hstart.2
    cases hl : form head k rest with
    | error e =>
      simp only [hl, bind, Except.bind] at h
      rw [hl] at hform
      cases h
      exact hform
    | ok r =>
      obtain ⟨l, left⟩ := r
      rw [hl] at hform
      simp only [hl, bind, Except.bind] at h
      cases left with
      | nil => cases h
      | cons t left =>
        cases h
        exact ⟨.inl rfl, fun _ hu => Option.some.inj hu ▸ (List.cons_subset.mp hform.2).1⟩

end

/-! ## Lines of a text -/

/-- A line of a text, numbered `number`, is at fault. -/
inductive FaultAt (number : Int) (text : List Char) : Fault → Pos → Prop where
  | stray {s : Stray} : tokens number text = .error s →
      FaultAt number text (.strayCharacter s.char) ⟨number, s.column⟩
  | token {ts : List Token} {t : Token} {f : Fault} : tokens number text = .ok ts → t ∈ ts →
      f.isSyntax = true ∨ t.IsTooLong f → FaultAt number text f t.pos
  | ended {ts : List Token} {t : Token} {f : Fault} : tokens number text = .ok ts → t ∈ ts →
      f.isSyntax = true → FaultAt number text f t.endPos

theorem readLine_error {number : Int} {text : List Char} {f : Fault} {pos : Pos}
    (h : readLine number text = .error (f, pos)) : FaultAt number text f pos := by
  unfold readLine at h
  split at h
  · rename_i hs
    cases h
    exact .stray hs
  · cases h
  · rename_i ts hne hts
    split at h
    · rename_i failure hline
      have hon := line_error (fun t ht => (tokens_stand hts t ht).2.1) hline
      cases h
      unfold Failure.pos
      split
      · rename_i t ht
        exact .token hts (hon.mem t ht) (hon.cause.imp_right fun ⟨u, hu, hlong⟩ => by
          rw [ht] at hu
          cases hu
          exact hlong)
      · rename_i hnone
        rw [List.getLast?_eq_some_getLast hne]
        exact .ended hts (List.getLast_mem hne) (hon.cause.resolve_right (by simp [hnone]))
    · cases h

/-- A text whose rows cannot be read has a line at fault. -/
theorem rows_error {number : Int} {texts : List (List Char)} {f : Fault} {pos : Pos}
    (h : rows number texts = .error (f, pos)) :
    ∃ (k : Nat) (l : List Char), texts[k]? = some l ∧ FaultAt (number + k) l f pos := by
  induction texts generalizing number with
  | nil => cases h
  | cons text texts ih =>
    have hlater : rows (number + 1) texts = .error (f, pos) →
        ∃ (k : Nat) (l : List Char), (text :: texts)[k]? = some l ∧ FaultAt (number + k) l f pos := by
      intro hrest
      obtain ⟨k, l, hk, hfault⟩ := ih hrest
      refine ⟨k + 1, l, hk, ?_⟩
      rwa [Nat.cast_succ, Int.add_comm (k : Int), ← Int.add_assoc]
    simp only [rows] at h
    split at h
    · rename_i hline
      cases h
      exact ⟨0, text, rfl, by simpa using readLine_error hline⟩
    · exact hlater h
    · cases hrest : rows (number + 1) texts with
      | error e =>
        rw [hrest] at h
        cases h
        exact hlater hrest
      | ok rs =>
        rw [hrest] at h
        cases h

/-- A text that cannot be read has a comment that is never closed, or a line at fault. -/
theorem parse_error {text : String} {name : Option String} {e : Located Fault}
    (h : parse text name = .error e) : e.source = name ∧
      (e.cause = .unclosedComment ∧ opening? (blankComments text.toList) = some e.pos ∨
        ∃ (k : Nat) (l : List Char), (Text.lines (blankComments text.toList))[k]? = some l ∧
          FaultAt (1 + k) l e.cause e.pos) := by
  unfold parse at h
  rw [tree_eq, textRows] at h
  cases hopen : opening? (blankComments text.toList) with
  | some pos =>
    simp only [hopen, Except.map] at h
    cases h
    exact ⟨rfl, .inl ⟨rfl, rfl⟩⟩
  | none =>
    simp only [hopen] at h
    cases hrows : rows 1 (Text.lines (blankComments text.toList)) with
    | ok rs =>
      simp only [hrows, Except.map] at h
      cases h
    | error fault =>
      simp only [hrows, Except.map] at h
      cases h
      exact ⟨rfl, .inr (rows_error hrows)⟩

end Source

/-! ## Positions of statements -/

/-- The positions in a statement: its own, and that of a duration in it. -/
def Statement.marks : Statement → List Pos
  | .play p => p.pos :: (p.duration.map Wait.pos).toList
  | .setting ⟨_, .duration w, pos⟩ => [pos, w.pos]
  | s => [s.pos]

namespace Source

def Line.marks : Line → List Pos
  | .label _ pos => [pos]
  | .loop _ pos => [pos]
  | .plain s => s.marks

theorem Line.marks_ofStatement (s : Statement) : (Line.ofStatement s).marks = s.marks := by
  cases s <;> rfl

section
variable {limit : Nat} {ts rest : List Token}

theorem ChannelAt.subset {c : Int} (h : ChannelAt limit c ts rest) : rest ⊆ ts := by
  cases h <;> exact fun t ht => by simp [ht]

theorem ChordAt.subset {c : Chord} (h : ChordAt limit c ts rest) : rest ⊆ ts := by
  cases h <;> exact fun t ht => by simp [ht]

theorem ChordsAt.subset {cs : List Chord} (h : ChordsAt limit cs ts rest) : rest ⊆ ts := by
  induction h with
  | none => exact List.Subset.refl _
  | more _ hc _ ih => exact List.subset_cons_of_subset _ (List.Subset.trans ih hc.subset)

theorem ModifierAt.subset {a : Assignment} (h : ModifierAt limit a ts rest) : rest ⊆ ts := by
  cases h with
  | channel _ hc => exact List.subset_cons_of_subset _ hc.subset
  | _ => exact fun t ht => by simp [ht]

theorem ModifiersAt.mark {as : List Assignment} (h : ModifiersAt limit as ts) :
    ∀ a ∈ as, ∀ w, a.duration? = some w → ∃ t ∈ ts, t.pos = w.pos := by
  induction h with
  | none => simp
  | more ha _ ih =>
    refine List.forall_mem_cons.mpr ⟨fun w hw => ?_, fun a' ha' w hw => ?_⟩
    · cases ha <;> cases hw
      exact ⟨_, List.mem_cons_self, rfl⟩
    · obtain ⟨t, ht, hpos⟩ := ih a' ha' w hw
      exact ⟨t, ha.subset ht, hpos⟩

theorem Sentence.marks {l : Line} (h : Sentence limit ts l) :
    ∀ p ∈ l.marks, ∃ t ∈ ts, t.pos = p := by
  cases h with
  | label _ hn => exact List.forall_mem_singleton.mpr ⟨_, by simp, rfl⟩
  | play _ hc hcs has =>
    refine List.forall_mem_cons.mpr ⟨⟨_, List.mem_cons_self, rfl⟩, fun p hp => ?_⟩
    simp only [Option.mem_toList, Option.map_eq_some_iff] at hp
    obtain ⟨w, hw, rfl⟩ := hp
    obtain ⟨a, ha, hd⟩ := List.exists_of_findSome?_eq_some hw
    obtain ⟨t, ht, hpos⟩ := has.mark a ha w hd
    exact ⟨t, List.mem_cons_of_mem _ (hc.subset (hcs.subset ht)), hpos⟩
  | defaultDuration =>
    exact List.forall_mem_cons.mpr ⟨⟨_, List.mem_cons_self, rfl⟩,
      List.forall_mem_singleton.mpr ⟨_, List.mem_cons_of_mem _ List.mem_cons_self, rfl⟩⟩
  | _ => exact List.forall_mem_singleton.mpr ⟨_, List.mem_cons_self, rfl⟩

end

end Source

end Ostinato
