import Mathlib
import Ostinato.Source.Comment

/-!
# Block comments

Blanking changes characters in place (`Blanked`): what is no blank was there before, and line feeds
stay. A text is `Closed` when every block comment that opens in it is closed in it; then it is blanked
apart from what comes behind it.
-/

namespace Ostinato.Source

/-- A character of a text after blanking, with what it was before. -/
def Blanked (b c : Char) : Prop := b = c ∨ b = ' ' ∧ c ≠ '\n'

/-! ## Characters in place -/

theorem blanked_blank (c : Char) : Blanked (blank c) c := by
  unfold blank
  split
  · exact .inl rfl
  · exact .inr ⟨rfl, by simpa using ‹¬(c == '\n') = true›⟩

/-- Blanking leaves every character in its place. -/
theorem blankComments_blanked (cs : List Char) : List.Forall₂ Blanked (blankComments cs) cs := by
  fun_induction blankComments cs with
  | case1 => exact .nil
  | case2 rest _ => exact List.forall₂_same.mpr fun c _ => .inl rfl
  | case3 rest n _ ih =>
    have hcomment : List.Forall₂ Blanked ((rest.take n).map blank) (rest.take n) :=
      List.forall₂_map_left_iff.mpr (List.forall₂_same.mpr fun c _ => blanked_blank c)
    have happend : List.Forall₂ Blanked (_ ++ _) (rest.take n ++ rest.drop n) :=
      List.rel_append hcomment ih
    rw [List.take_append_drop] at happend
    exact .cons (.inr ⟨rfl, by decide⟩) (.cons (.inr ⟨rfl, by decide⟩) happend)
  | case4 c rest _ ih => exact .cons (.inl rfl) ih

section
variable {bs cs : List Char}

theorem Blanked.head? (h : List.Forall₂ Blanked bs cs) :
    bs.head? = some '\n' ↔ cs.head? = some '\n' := by
  cases h with
  | nil => rfl
  | cons hbc _ =>
    rcases hbc with rfl | ⟨rfl, hc⟩
    · rfl
    · simp [hc]

theorem Blanked.head?_eq {c : Char} (h : List.Forall₂ Blanked bs cs) (hc : c ≠ ' ')
    (hb : bs.head? = some c) : cs.head? = some c := by
  cases h with
  | nil => cases hb
  | cons hbc _ =>
    obtain rfl := Option.some.inj hb
    rw [List.head?_cons, hbc.resolve_right fun hblank => hc hblank.1]

theorem Blanked.drop (h : List.Forall₂ Blanked bs cs) (n : Nat) :
    List.Forall₂ Blanked (bs.drop n) (cs.drop n) :=
  List.forall₂_drop n h

theorem Blanked.isPrefix {x : List Char} (h : List.Forall₂ Blanked bs cs) (hx : x <+: bs)
    (hblank : ' ' ∉ x) : x <+: cs := by
  induction h generalizing x with
  | nil => exact hx
  | @cons b c bs cs hbc _ ih =>
    cases x with
    | nil => exact List.nil_prefix
    | cons d x =>
      obtain ⟨rfl, hrest⟩ := List.cons_prefix_cons.mp hx
      rw [List.mem_cons, not_or] at hblank
      obtain rfl : d = c := hbc.resolve_right fun hb => hblank.1 hb.1.symm
      exact List.cons_prefix_cons.mpr ⟨rfl, ih hrest hblank.2⟩

end

/-! ## Two characters in a row -/

section
variable {x y c : Char} {a b cs : List Char}

theorem not_pair_isPrefix (hno : ∀ rest, c = x → cs = y :: rest → False) :
    ¬ [x, y] <+: c :: cs := by
  intro hprefix
  obtain ⟨rfl, rest, rfl⟩ := List.cons_prefix_cons.mp hprefix
  exact hno rest rfl rfl

theorem exists_head {rest : List Char} (h : a ++ b = y :: rest) (hhead : b.head? ≠ some y) :
    ∃ a', a = y :: a' := by
  cases a with
  | nil => exact absurd (by rw [← List.nil_append b, h, List.head?_cons]) hhead
  | cons d a => exact ⟨a, by rw [(List.cons.inj h).1]⟩

theorem pair_of_append (h : [x, y] <:+: a ++ b) (ha : x ∉ a) : [x, y] <:+: b := by
  induction a with
  | nil => exact h
  | cons c a ih =>
    rw [List.mem_cons, not_or] at ha
    refine ih ((List.infix_cons_iff.mp h).resolve_left (not_pair_isPrefix ?_)) ha.2
    rintro rest rfl
    exact absurd rfl ha.1

theorem not_pair_append (ha : ¬ [x, y] <:+: a) (hb : ¬ [x, y] <:+: b) (hhead : b.head? ≠ some y) :
    ¬ [x, y] <:+: a ++ b := by
  induction a with
  | nil => exact hb
  | cons c a ih =>
    rw [List.infix_cons_iff, not_or] at ha
    rw [List.cons_append, List.infix_cons_iff, not_or]
    refine ⟨not_pair_isPrefix ?_, ih ha.2⟩
    rintro rest rfl hrest
    obtain ⟨a', rfl⟩ := exists_head hrest hhead
    exact ha.1 ⟨a', rfl⟩

end

/-! ## Comments -/

section
variable {a b cs : List Char}

theorem openingFrom?_eq_none_iff {line column : Int} :
    openingFrom? line column cs = none ↔ ¬ ['/', '*'] <:+: cs := by
  fun_induction openingFrom? line column cs with
  | case1 => simp
  | case2 line column rest => simpa using ⟨[], rest, rfl⟩
  | case3 line column c rest hno hc ih =>
    rw [ih, List.infix_cons_iff, not_or, and_iff_right (not_pair_isPrefix hno)]
  | case4 line column c rest hno hc ih =>
    rw [ih, List.infix_cons_iff, not_or, and_iff_right (not_pair_isPrefix hno)]

theorem openingFrom?_eq_none (h : '/' ∉ cs) (line column : Int) :
    openingFrom? line column cs = none :=
  openingFrom?_eq_none_iff.mpr fun hopen => h (hopen.subset List.mem_cons_self)

theorem closingLength?_eq_none_iff : closingLength? cs = none ↔ ¬ ['*', '/'] <:+: cs := by
  fun_induction closingLength? cs with
  | case1 => simp
  | case2 rest => simpa using ⟨[], rest, rfl⟩
  | case3 c rest hno ih =>
    rw [Option.map_eq_none_iff, ih, List.infix_cons_iff, not_or,
      and_iff_right (not_pair_isPrefix hno)]

/-- Every comment that opens in the text is closed in it. -/
def Closed (text : List Char) : Prop := opening? (blankComments text) = none

theorem closed_iff : Closed a ↔ ¬ ['/', '*'] <:+: blankComments a :=
  openingFrom?_eq_none_iff

theorem closingLength?_le {n : Nat} (h : closingLength? cs = some n) : n ≤ cs.length := by
  fun_induction closingLength? cs generalizing n with
  | case1 => cases h
  | case2 rest =>
    cases h
    simp
  | case3 c rest hno ih =>
    obtain ⟨m, hm, rfl⟩ := Option.map_eq_some_iff.mp h
    exact Nat.succ_le_succ (ih hm)

theorem closingLength?_append {n : Nat} (h : closingLength? cs = some n) (b : List Char) :
    closingLength? (cs ++ b) = some n := by
  fun_induction closingLength? cs generalizing n with
  | case1 => cases h
  | case2 rest =>
    cases h
    rfl
  | case3 c rest hno ih =>
    obtain ⟨m, hm, rfl⟩ := Option.map_eq_some_iff.mp h
    cases rest with
    | nil => cases hm
    | cons d rest =>
      rw [List.cons_append, closingLength?, ih hm, Option.map_some]
      rintro rest' rfl hrest
      obtain ⟨rfl, -⟩ := List.cons.inj hrest
      exact hno rest rfl rfl

theorem blankComments_cons {c : Char} (hc : c ≠ '/') (cs : List Char) :
    blankComments (c :: cs) = c :: blankComments cs := by
  rw [blankComments]
  simp [hc]

theorem blankComments_eq (h : '/' ∉ cs) : blankComments cs = cs := by
  induction cs with
  | nil => rw [blankComments]
  | cons c cs ih =>
    rw [List.mem_cons, not_or] at h
    rw [blankComments_cons (Ne.symm h.1), ih h.2]

/-- Two parts of a text are blanked apart if no comment is left open in the first one and none
opens across. -/
theorem blankComments_append (ha : Closed a) (hhead : b.head? ≠ some '*') :
    blankComments (a ++ b) = blankComments a ++ blankComments b := by
  rw [closed_iff] at ha
  fun_induction blankComments a with
  | case1 => rfl
  | case2 rest hnone => exact absurd ⟨[], rest, rfl⟩ ha
  | case3 rest n hn ih =>
    have hle := closingLength?_le hn
    have hrest : ¬ ['/', '*'] <:+: blankComments (rest.drop n) := fun h =>
      ha (h.trans ⟨' ' :: ' ' :: (rest.take n).map blank, [], by simp⟩)
    rw [List.cons_append, List.cons_append, blankComments, closingLength?_append hn]
    simp only [List.take_append_of_le_length hle, List.drop_append_of_le_length hle, ih hrest,
      List.cons_append, List.append_assoc]
  | case4 c rest hno ih =>
    rw [List.infix_cons_iff, not_or] at ha
    rw [List.cons_append, blankComments, ih ha.2, List.cons_append]
    rintro rest' rfl hrest
    obtain ⟨rest, rfl⟩ := exists_head hrest hhead
    exact hno rest rfl rfl

theorem Closed.append (ha : Closed a) (hb : Closed b) (hhead : b.head? ≠ some '*') :
    Closed (a ++ b) := by
  rw [closed_iff, blankComments_append ha hhead]
  refine not_pair_append (closed_iff.mp ha) (closed_iff.mp hb) fun hstar => hhead ?_
  exact Blanked.head?_eq (blankComments_blanked b) (by decide) hstar

theorem Closed.right (ha : Closed a) (h : Closed (a ++ b)) (hhead : b.head? ≠ some '*') :
    Closed b := by
  rw [closed_iff, blankComments_append ha hhead] at h
  exact closed_iff.mpr fun hb => h (hb.trans (List.suffix_append _ _).isInfix)

theorem not_closed_append (ha : ¬ Closed a) (hb : ¬ ['*', '/'] <:+: b) (hstar : b.head? ≠ some '*')
    (hslash : b.head? ≠ some '/') : ¬ Closed (a ++ b) := by
  rw [closed_iff, not_not] at ha ⊢
  fun_induction blankComments a with
  | case1 => simp at ha
  | case2 rest hnone =>
    have hopen := not_pair_append (closingLength?_eq_none_iff.mp hnone) hb hslash
    rw [List.cons_append, List.cons_append, blankComments, closingLength?_eq_none_iff.mpr hopen]
    exact ⟨[], rest ++ b, rfl⟩
  | case3 rest n hn ih =>
    have hle := closingLength?_le hn
    have hslash : '/' ∉ ' ' :: ' ' :: (rest.take n).map blank := by
      simp only [List.mem_cons, List.mem_map, not_or, not_exists, not_and]
      refine ⟨by decide, by decide, fun c _ => ?_⟩
      unfold blank
      split
      · rename_i hc
        rw [beq_iff_eq.mp hc]
        decide
      · decide
    have hopen := ih (pair_of_append (a := ' ' :: ' ' :: (rest.take n).map blank) ha hslash)
    rw [List.cons_append, List.cons_append, blankComments, closingLength?_append hn]
    simp only [List.take_append_of_le_length hle, List.drop_append_of_le_length hle]
    exact hopen.trans ⟨' ' :: ' ' :: (rest.take n).map blank, [], by simp⟩
  | case4 c rest hno ih =>
    have hrest : ['/', '*'] <:+: blankComments rest := by
      refine (List.infix_cons_iff.mp ha).resolve_left (not_pair_isPrefix ?_)
      rintro rest' rfl hstar
      have hhead := Blanked.head?_eq (c := '*') (blankComments_blanked rest) (by decide)
        (by rw [hstar, List.head?_cons])
      obtain ⟨more, rfl⟩ := List.head?_eq_some_iff.mp hhead
      exact hno more rfl rfl
    rw [List.cons_append, blankComments]
    · exact List.infix_cons (ih hrest)
    · rintro rest' rfl hrest
      obtain ⟨rest, rfl⟩ := exists_head hrest hstar
      exact hno rest rfl rfl

end

end Ostinato.Source
