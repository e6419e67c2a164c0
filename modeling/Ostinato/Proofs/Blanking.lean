import Ostinato.Proofs.Comments
import Ostinato.Proofs.Failing
import Ostinato.Proofs.Lines

/-!
# Where blanked text stands

Tokens are cut from the lines of the blanked text. Blanking changes characters in place, so a token
stands at the same index of the text itself (`Blanked`). Its line and column are those it has there
if and only if the line breaks in front of it are still line breaks: a line feed always is, any other
break only outside the comments (`KeptBefore`). The place of a comment that is never closed is
counted by line feeds alone, so there every line break in front has to be one (`FeedsBefore`).
-/

namespace Ostinato.Source

/-- Every line break in front of an index is a line feed or stands outside the comments. -/
def KeptBefore (text : List Char) (i : Nat) : Prop :=
  ∀ j < i, ∀ c, Text.BreakAt text j c → c = '\n' ∨ (blankComments text)[j]? = some c

/-- Every line break in front of an index is a line feed, or a carriage return and a line feed. -/
def FeedsBefore (text : List Char) (i : Nat) : Prop :=
  ∀ j < i, ∀ c, Text.BreakAt text j c → c = '\n'

/-- The index at which the blanked text has a position. There is one at most
(`Text.positions_injective`). -/
def OwnIndex (text : List Char) (pos : Pos) (i : Nat) : Prop :=
  (Text.positions (blankComments text))[i]? = some pos

/-- Some characters that are read at a position stand in the text itself where they stand in the
blanked text, and the text has the position there if and only if the line breaks before are kept. -/
structure Placed (text cs : List Char) (pos : Pos) : Prop where
  exists_index : ∃ i, OwnIndex text pos i
  blanked : ∀ i, OwnIndex text pos i → cs <+: (blankComments text).drop i
  stands : ∀ i, OwnIndex text pos i → cs <+: text.drop i
  position : ∀ i, OwnIndex text pos i →
    (KeptBefore text i ↔ (Text.positions text)[i]? = some pos)

/-- The first `/*` that blanking leaves. -/
def OpensAt (text : List Char) (i : Nat) : Prop :=
  ['/', '*'] <+: (blankComments text).drop i ∧
    ∀ j < i, ¬ ['/', '*'] <+: (blankComments text).drop j

/-- The first comment that blanking leaves open opens in the text itself, which has the position there
if and only if all lines before it end with line feeds. -/
structure Opens (text : List Char) (pos : Pos) : Prop where
  exists_index : ∃ i, OpensAt text i
  stands : ∀ i, OpensAt text i → ['/', '*'] <+: text.drop i
  position : ∀ i, OpensAt text i → (FeedsBefore text i ↔ (Text.positions text)[i]? = some pos)

def IsToken (text : List Char) (t : Token) : Prop :=
  ∃ (k : Nat) (l : List Char) (ts : List Token),
    (Text.lines (blankComments text))[k]? = some l ∧ tokens (1 + k) l = .ok ts ∧ t ∈ ts

/-! ## Positions -/

section
variable {bs cs : List Char}

theorem Blanked.endsLine_eq {b c : Char} (hbc : Blanked b c) (h : List.Forall₂ Blanked bs cs)
    (hkept : Text.endsLine c cs = true → b = c) : Text.endsLine b bs = Text.endsLine c cs := by
  rcases hbc with rfl | ⟨rfl, -⟩
  · exact Text.endsLine_congr (Blanked.head? h)
  · have hblank : ∀ rest, Text.endsLine ' ' rest = false := Text.endsLine_eq_false (by decide)
    cases hc : Text.endsLine c cs with
    | false => exact hblank bs
    | true =>
      obtain rfl := hkept hc
      rw [hblank] at hc
      cases hc

/-- Where no line break before is blanked, a character has its position. -/
theorem Blanked.positionsFrom (h : List.Forall₂ Blanked bs cs) {i : Nat}
    (hkept : ∀ j < i, ∀ c, Text.BreakAt cs j c → bs[j]? = some c) (line column : Int) :
    (Text.positionsFrom line column bs)[i]? = (Text.positionsFrom line column cs)[i]? := by
  induction h generalizing i line column with
  | nil => rfl
  | @cons b c bs cs hbc h ih =>
    cases i with
    | zero => rfl
    | succ i =>
      have hends := hbc.endsLine_eq h fun hc =>
        Option.some.inj (hkept 0 (Nat.succ_pos i) c ⟨rfl, hc⟩)
      rw [Text.positionsFrom, Text.positionsFrom, hends, List.getElem?_cons_succ,
        List.getElem?_cons_succ]
      have hrest := ih (i := i) fun j hj d hd => hkept (j + 1) (by omega) d hd
      split <;> exact hrest _ _

theorem Blanked.breakAt {j : Nat} {b : Char} (h : List.Forall₂ Blanked bs cs)
    (hb : Text.BreakAt bs j b) : Text.BreakAt cs j b := by
  induction h generalizing j with
  | nil => exact hb
  | @cons b' c bs cs hbc h ih =>
    cases j with
    | succ j => exact ih hb
    | zero =>
      obtain ⟨hget, hends⟩ := hb
      obtain rfl := Option.some.inj hget
      rcases hbc with rfl | ⟨rfl, -⟩
      · exact ⟨rfl, Text.endsLine_congr (Blanked.head? h) ▸ hends⟩
      · rw [Text.endsLine_eq_false (by decide)] at hends
        cases hends

theorem getElem?_blankComments_feed {text : List Char} {j : Nat} (h : text[j]? = some '\n') :
    (blankComments text)[j]? = some '\n' := by
  have hdrop := Blanked.head? (Blanked.drop (blankComments_blanked text) j)
  simpa [List.head?_drop, h] using hdrop

theorem Blanked.endsLine_le {b c : Char} (hbc : Blanked b c) (h : List.Forall₂ Blanked bs cs) :
    (if Text.endsLine b bs then 1 else 0) ≤ if Text.endsLine c cs then 1 else 0 := by
  rcases hbc with rfl | ⟨rfl, -⟩
  · rw [Text.endsLine_congr (Blanked.head? h)]
  · rw [Text.endsLine_eq_false (by decide), if_neg Bool.false_ne_true]
    exact Nat.zero_le _

theorem Blanked.breaks_le (h : List.Forall₂ Blanked bs cs) (i : Nat) :
    Text.breaks bs i ≤ Text.breaks cs i := by
  induction h generalizing i with
  | nil => exact Nat.le_refl _
  | cons hbc h ih =>
    cases i with
    | zero => exact Nat.le_refl _
    | succ i => exact Nat.add_le_add (hbc.endsLine_le h) (ih i)

/-- If as many lines end after blanking, no line break was blanked. -/
theorem Blanked.kept_of_breaks_le (h : List.Forall₂ Blanked bs cs) {i : Nat}
    (hle : Text.breaks cs i ≤ Text.breaks bs i) :
    ∀ j < i, ∀ c, Text.BreakAt cs j c → bs[j]? = some c := by
  induction h generalizing i with
  | nil =>
    rintro j - c ⟨hc, -⟩
    cases hc
  | @cons b d bs cs hbd h ih =>
    intro j hj c hc
    obtain ⟨i, rfl⟩ : ∃ k, i = k + 1 := ⟨i - 1, by omega⟩
    have hfirst := hbd.endsLine_le h
    have hrest := Blanked.breaks_le h i
    rw [Text.breaks, Text.breaks] at hle
    cases j with
    | succ j => exact ih (i := i) (by omega) j (by omega) c hc
    | zero =>
      obtain ⟨hget, hends⟩ := hc
      obtain rfl := Option.some.inj hget
      have hends : Text.endsLine d cs = true := hends
      rcases hbd with rfl | ⟨rfl, -⟩
      · rfl
      · rw [if_pos hends, Text.endsLine_eq_false (by decide), if_neg Bool.false_ne_true] at hle
        omega

theorem Blanked.count_feed (h : List.Forall₂ Blanked bs cs) (i : Nat) :
    (bs.take i).count '\n' = (cs.take i).count '\n' := by
  induction h generalizing i with
  | nil => rfl
  | @cons b c bs cs hbc h ih =>
    cases i with
    | zero => rfl
    | succ i =>
      rw [List.take_succ_cons, List.take_succ_cons, List.count_cons, List.count_cons, ih i]
      rcases hbc with rfl | ⟨rfl, hc⟩
      · rfl
      · rw [if_neg (by decide), if_neg (by simpa using hc)]

theorem positions_blankComments {text : List Char} {i : Nat} (h : KeptBefore text i) :
    (Text.positions (blankComments text))[i]? = (Text.positions text)[i]? :=
  Blanked.positionsFrom (blankComments_blanked text) (fun j hj c hc => by
    rcases h j hj c hc with rfl | hkept
    · exact getElem?_blankComments_feed hc.1
    · exact hkept) 1 1

theorem singleton_isPrefix {l : List Char} {j : Nat} {c : Char} (h : l[j]? = some c) :
    [c] <+: l.drop j := by
  obtain ⟨hj, rfl⟩ := List.getElem?_eq_some_iff.mp h
  rw [List.drop_eq_getElem_cons hj]
  exact ⟨_, rfl⟩

theorem getElem?_of_isPrefix {text x : List Char} {i : Nat} {c : Char}
    (h : c :: x <+: text.drop i) : text[i]? = some c := by
  obtain ⟨more, hdrop⟩ := h
  rw [← List.head?_drop, ← hdrop, List.cons_append, List.head?_cons]

/-- The text has a position where the blanked text has it, if and only if no line break before was
blanked. -/
theorem OwnIndex.keptBefore_iff {text : List Char} {pos : Pos} {i : Nat}
    (h : OwnIndex text pos i) : KeptBefore text i ↔ (Text.positions text)[i]? = some pos := by
  constructor
  · intro hkept
    rw [← positions_blankComments hkept]
    exact h
  · intro hpos j hj c hc
    have hline := (Text.line_positionsFrom h).symm.trans (Text.line_positionsFrom hpos)
    exact .inr (Blanked.kept_of_breaks_le (blankComments_blanked text) (by omega) j hj c hc)

/-- What stands in a line of the blanked text and has no blanks is placed in the text itself. -/
theorem placed_of_line {text l x : List Char} {k j : Nat}
    (hl : (Text.lines (blankComments text))[k]? = some l) (hx : x <+: l.drop j) (hne : x ≠ [])
    (hblank : ' ' ∉ x) : Placed text x ⟨k + 1, j + 1⟩ := by
  obtain ⟨-, start, hstart, hpos⟩ := Text.lines_stand hl
  have hj : j < l.length := by
    have := hx.length_le
    have := List.length_pos_iff.mpr hne
    rw [List.length_drop] at *
    omega
  have hown : OwnIndex text ⟨k + 1, j + 1⟩ (start + j) := hpos j hj
  have hbegin : x <+: (blankComments text).drop (start + j) := by
    rw [← List.drop_drop]
    exact hx.trans (hstart.drop j)
  have hindex : ∀ i, OwnIndex text ⟨k + 1, j + 1⟩ i → i = start + j := fun i hi =>
    Text.positions_injective hi hown
  refine ⟨⟨_, hown⟩, fun i hi => ?_, fun i hi => ?_, fun i hi => hi.keptBefore_iff⟩
  · rw [hindex i hi]
    exact hbegin
  · rw [hindex i hi]
    exact Blanked.isPrefix (Blanked.drop (blankComments_blanked text) _) hbegin hblank

theorem IsToken.placed {text : List Char} {t : Token} (h : IsToken text t) :
    Placed text t.text.toList t.pos := by
  obtain ⟨k, l, ts, hl, hts, ht⟩ := h
  obtain ⟨hline, hspells, j, hcolumn, hj⟩ := tokens_stand hts t ht
  have hpos : t.pos = ⟨k + 1, j + 1⟩ := by
    rw [Token.pos, hline, hcolumn, Int.add_comm, Int.add_comm 1]
  rw [hpos]
  exact placed_of_line hl hj hspells.ne_nil hspells.not_mem_blank

/-! ## Openings -/

theorem not_isPrefix_succ {c : Char} {i : Nat} (hfirst : ¬ ['/', '*'] <+: c :: cs)
    (h : ∀ j < i, ¬ ['/', '*'] <+: cs.drop j) : ∀ j < i + 1, ¬ ['/', '*'] <+: (c :: cs).drop j := by
  rintro (_ | j) hj
  · exact hfirst
  · exact h j (by omega)

/-- The place of an opening is that of the first one, if lines end with line feeds up to there. Its
line is counted by line feeds in any case. -/
theorem openingFrom?_eq_some {line column : Int} {pos : Pos}
    (h : openingFrom? line column cs = some pos) :
    ∃ i, ['/', '*'] <+: cs.drop i ∧ (∀ j < i, ¬ ['/', '*'] <+: cs.drop j) ∧
      pos.line = line + (cs.take i).count '\n' ∧
      ((∀ j < i, ∀ c, Text.BreakAt cs j c → c = '\n') →
        (Text.positionsFrom line column cs)[i]? = some pos) := by
  fun_induction openingFrom? line column cs with
  | case1 => cases h
  | case2 line column rest =>
    cases h
    exact ⟨0, ⟨rest, rfl⟩, by simp, by simp, fun _ => rfl⟩
  | case3 line column c rest hno hc ih =>
    obtain ⟨i, hbegin, hfirst, hline, hpos⟩ := ih h
    obtain rfl := beq_iff_eq.mp hc
    refine ⟨i + 1, hbegin, not_isPrefix_succ (not_pair_isPrefix hno) hfirst, ?_,
      fun hfeeds => ?_⟩
    · rw [hline, List.take_succ_cons, List.count_cons_self]
      push_cast
      omega
    · exact hpos fun j hj d hd => hfeeds (j + 1) (by omega) d hd
  | case4 line column c rest hno hc ih =>
    obtain ⟨i, hbegin, hfirst, hline, hpos⟩ := ih h
    refine ⟨i + 1, hbegin, not_isPrefix_succ (not_pair_isPrefix hno) hfirst, ?_,
      fun hfeeds => ?_⟩
    · rw [hline, List.take_succ_cons, List.count_cons, if_neg hc, Nat.add_zero]
    · have hends : Text.endsLine c rest = false := by
        by_contra he
        exact hc (beq_iff_eq.mpr (hfeeds 0 (by omega) c ⟨rfl, by simpa using he⟩))
      rw [Text.positionsFrom, hends, if_neg Bool.false_ne_true]
      exact hpos fun j hj d hd => hfeeds (j + 1) (by omega) d hd

theorem FeedsBefore.keptBefore {text : List Char} {i : Nat} (h : FeedsBefore text i) :
    KeptBefore text i := fun j hj c hc => .inl (h j hj c hc)

theorem OpensAt.unique {text : List Char} {i j : Nat} (hi : OpensAt text i) (hj : OpensAt text j) :
    i = j := by
  rcases Nat.lt_trichotomy i j with hlt | rfl | hlt
  · exact absurd hi.1 (hj.2 i hlt)
  · rfl
  · exact absurd hj.1 (hi.2 j hlt)

theorem opens_of_opening? {text : List Char} {pos : Pos}
    (h : opening? (blankComments text) = some pos) : Opens text pos := by
  obtain ⟨i, hbegin, hfirst, hline, hpos⟩ := openingFrom?_eq_some h
  have hblanked := blankComments_blanked text
  have hopens : OpensAt text i := ⟨hbegin, hfirst⟩
  refine ⟨⟨i, hopens⟩, fun k hk => ?_, fun k hk => ?_⟩
  · rw [hk.unique hopens]
    exact Blanked.isPrefix (Blanked.drop hblanked i) hbegin (by decide)
  · rw [hk.unique hopens]
    constructor
    · intro hfeeds
      rw [← positions_blankComments hfeeds.keptBefore]
      exact hpos fun j hj b hb => hfeeds j hj b (Blanked.breakAt hblanked hb)
    · -- The text has as many lines up to there as line feeds, so these are all its breaks.
      intro hown
      have hlines := hline.symm.trans (Text.line_positionsFrom hown)
      rw [Blanked.count_feed hblanked] at hlines
      exact Text.eq_feed_of_breaks_le (by omega)

end

/-! ## Positions of a tree and of a fault -/

section
variable {text : String} {name : Option String}

theorem parse_marks {tree : List Statement} (h : parse text name = .ok tree) {s : Statement}
    (hs : s ∈ Forest.nodes tree) {p : Pos} (hp : p ∈ s.marks) :
    ∃ t, IsToken text.toList t ∧ t.pos = p := by
  obtain ⟨rs, hrows, -, hlines⟩ := parse_ok h
  have hmem : Line.ofStatement s ∈ rs.map Row.line := hlines ▸ List.mem_map_of_mem hs
  obtain ⟨r, hr, hline⟩ := List.mem_map.mp hmem
  unfold textRows at hrows
  split at hrows
  · cases hrows
  · obtain ⟨k, l, ts, hl, hts, hread⟩ := rows_ok hrows r hr
    rw [hline] at hread
    rw [← Line.marks_ofStatement] at hp
    obtain ⟨t, ht, hpos⟩ := (sentence_of_line hread).marks p hp
    exact ⟨t, ⟨k, l, ts, hl, hts, ht⟩, hpos⟩

theorem FaultAt.placed {text : List Char} {k : Nat} {l : List Char} {f : Fault} {pos : Pos}
    (h : FaultAt (1 + k) l f pos) (hl : (Text.lines (blankComments text))[k]? = some l) :
    (∃ c, f = .strayCharacter c ∧ Placed text [c] pos) ∨
      ∃ t, IsToken text t ∧ (pos = t.pos ∨ pos = t.endPos) := by
  cases h with
  | token hts ht => exact .inr ⟨_, ⟨k, l, _, hl, hts, ht⟩, .inl rfl⟩
  | ended hts ht => exact .inr ⟨_, ⟨k, l, _, hl, hts, ht⟩, .inr rfl⟩
  | @stray s hs =>
    obtain ⟨hspace, j, hcolumn, hj⟩ := tokens_stray hs
    refine .inl ⟨s.char, rfl, ?_⟩
    rw [hcolumn, Int.add_comm, Int.add_comm 1]
    refine placed_of_line hl (singleton_isPrefix hj) (List.cons_ne_nil _ _) ?_
    rw [List.mem_singleton]
    intro hblank
    rw [← hblank] at hspace
    cases hspace

/-- **Positions are those of the text** if and only if blanking keeps its line breaks. Every token
stands in the text where the blanked text has its position, and it has its line and column there if
and only if each line break in a comment in front of it is a line feed, alone or behind a carriage
return. The positions in a tree and in an error are those of tokens; a stray character is placed like
a token. The comment that is reported as never closed is the first one that blanking leaves, and it is
placed right if and only if all lines before it end with line feeds. -/
theorem parse_positions (text : String) (name : Option String) :
    (∀ t, IsToken text.toList t → Placed text.toList t.text.toList t.pos) ∧
    (∀ tree, parse text name = .ok tree → ∀ s ∈ Forest.nodes tree, ∀ p ∈ s.marks,
      ∃ t, IsToken text.toList t ∧ t.pos = p) ∧
    ∀ e, parse text name = .error e →
      e.cause = .unclosedComment ∧ Opens text.toList e.pos ∨
      (∃ c, e.cause = .strayCharacter c ∧ Placed text.toList [c] e.pos) ∨
      ∃ t, IsToken text.toList t ∧ (e.pos = t.pos ∨ e.pos = t.endPos) := by
  refine ⟨fun t ht => ht.placed, fun tree htree s hs p hp => parse_marks htree hs hp,
    fun e he => ?_⟩
  rcases (parse_error he).2 with ⟨hcause, hopen⟩ | ⟨k, l, hl, hfault⟩
  · exact .inl ⟨hcause, opens_of_opening? hopen⟩
  · exact .inr (hfault.placed hl)

end

def feedText : String := "/* a\n b */ WAIT 1 t"

theorem parse_feedText : parse feedText none = .ok [.wait ⟨1, .ticks, ⟨2, 7⟩⟩] := by
  cbv

theorem keptBefore_feedText : KeptBefore feedText.toList 11 := by
  have hfeeds : ∀ c ∈ feedText.toList, Text.isLineBreak c = true → c = '\n' := by
    simp [feedText, Text.isLineBreak]
  rintro j - c ⟨hc, hends⟩
  rw [Text.endsLine, Bool.and_eq_true] at hends
  exact .inl (hfeeds c (List.mem_of_getElem? hc) hends.1)

theorem parse_positions_feed : parse feedText none = .ok [.wait ⟨1, .ticks, ⟨2, 7⟩⟩] ∧
    OwnIndex feedText.toList ⟨2, 7⟩ 11 ∧ KeptBefore feedText.toList 11 ∧
    ∃ t, IsToken feedText.toList t ∧ t.pos = ⟨2, 7⟩ ∧ t.text.toList <+: feedText.toList.drop 11 ∧
      (Text.positions feedText.toList)[11]? = some t.pos := by
  obtain ⟨hplaced, htree, -⟩ := parse_positions feedText none
  obtain ⟨t, ht, hpos⟩ := htree _ parse_feedText (.wait ⟨1, .ticks, ⟨2, 7⟩⟩)
    (by simp [Forest.nodes]) ⟨2, 7⟩ List.mem_cons_self
  have hown : OwnIndex feedText.toList ⟨2, 7⟩ 11 := by
    unfold OwnIndex
    cbv
  have hat : OwnIndex feedText.toList t.pos 11 := hpos ▸ hown
  exact ⟨parse_feedText, hown, keptBefore_feedText, t, ht, hpos, (hplaced t ht).stands 11 hat,
    ((hplaced t ht).position 11 hat).mp keptBefore_feedText⟩

def returnText : String := "/*\r*/ WAIT 1 t"

/-- A carriage return in a comment is blanked: the statement is put on the line before its own, at a
column that this line does not have. -/
theorem positions_returnText : parse returnText none = .ok [.wait ⟨1, .ticks, ⟨1, 7⟩⟩] ∧
    ⟨1, 7⟩ ∉ Text.positions returnText.toList ∧
    returnText.toList[6]? = some 'W' ∧ (Text.positions returnText.toList)[6]? = some ⟨2, 4⟩ := by
  refine ⟨by cbv, by decide, by decide, by decide⟩

end Ostinato.Source
