import Mathlib
import Ostinato.Binary64

/-!
# The order of binary64 numbers

Everything but a NaN has a place on the line of the integers with an end added on either side: a
finite number stands at its units, both zeros at the same place, and the infinite ones at the ends.
Numbers are compared as their places are (`lt_iff`, `le_iff`), so their order is total and
transitive, and a NaN compares with nothing.
-/

namespace Ostinato.Binary64

def IsNumber : Binary64 → Prop
  | nan _ => False
  | _ => True

/-- Where a number stands. -/
def place : Binary64 → WithBot (WithTop Int)
  | nan _ | inf true => ⊥
  | inf false => ((⊤ : WithTop Int) : WithBot (WithTop Int))
  | fin true mag => ((-(mag : Int) : Int) : WithTop Int)
  | fin false mag => ((mag : Int) : WithTop Int)

theorem isNumber_of_lt {x y : Binary64} (h : x.lt y = true) : x.IsNumber ∧ y.IsNumber := by
  cases x with
  | nan s => cases h
  | inf s | fin s a =>
    cases y with
    | nan t => cases s <;> cases h
    | inf t | fin t b => exact ⟨trivial, trivial⟩

theorem isNumber_of_eq {x y : Binary64} (h : x.eq y = true) : x.IsNumber ∧ y.IsNumber := by
  cases x with
  | nan s => cases h
  | inf s | fin s a =>
    cases y with
    | nan t => cases h
    | inf t | fin t b => exact ⟨trivial, trivial⟩

theorem place_fin (s : Bool) (a : Nat) :
    (fin s a).place = ((if s then -(a : Int) else a : Int) : WithTop Int) := by
  cases s <;> rfl

theorem lt_iff_place {x y : Binary64} (hx : x.IsNumber) (hy : y.IsNumber) :
    x.lt y = true ↔ x.place < y.place := by
  match x, hx, y, hy with
  | inf true, _, inf true, _ => exact iff_of_false Bool.false_ne_true (lt_irrefl _)
  | inf true, _, inf false, _ => exact iff_of_true rfl (WithBot.bot_lt_coe _)
  | inf false, _, inf t, _ =>
    refine iff_of_false Bool.false_ne_true fun h => ?_
    cases t with
    | false => exact lt_irrefl _ h
    | true => exact not_lt_bot h
  | inf true, _, fin t b, _ =>
    rw [place_fin]
    exact iff_of_true rfl (WithBot.bot_lt_coe _)
  | inf false, _, fin t b, _ =>
    rw [place_fin]
    exact iff_of_false Bool.false_ne_true fun h => not_top_lt (WithBot.coe_lt_coe.mp h)
  | fin s a, _, inf true, _ =>
    exact iff_of_false (by cases s <;> exact Bool.false_ne_true) not_lt_bot
  | fin s a, _, inf false, _ =>
    rw [place_fin]
    exact iff_of_true (by cases s <;> rfl) (WithBot.coe_lt_coe.mpr (WithTop.coe_lt_top _))
  | fin s a, _, fin t b, _ =>
    rw [place_fin, place_fin, WithBot.coe_lt_coe, WithTop.coe_lt_coe]
    cases s <;> cases t <;>
      simp only [lt, Bool.or_eq_true, Bool.false_eq_true, decide_eq_true_eq, if_true, if_false,
        false_iff] <;> omega

theorem eq_iff_place {x y : Binary64} (hx : x.IsNumber) (hy : y.IsNumber) :
    x.eq y = true ↔ x.place = y.place := by
  have hends (s t : Bool) (a : Nat) : (inf s).place ≠ (fin t a).place := by
    rw [place_fin]
    cases s with
    | false => exact fun h => WithTop.top_ne_coe (WithBot.coe_inj.mp h)
    | true => exact WithBot.bot_ne_coe
  match x, hx, y, hy with
  | inf true, _, inf true, _ | inf false, _, inf false, _ => exact iff_of_true rfl rfl
  | inf true, _, inf false, _ => exact iff_of_false Bool.false_ne_true WithBot.bot_ne_coe
  | inf false, _, inf true, _ => exact iff_of_false Bool.false_ne_true WithBot.coe_ne_bot
  | inf s, _, fin t b, _ => exact iff_of_false Bool.false_ne_true (hends s t b)
  | fin s a, _, inf t, _ => exact iff_of_false Bool.false_ne_true (hends t s a).symm
  | fin s a, _, fin t b, _ =>
    rw [place_fin, place_fin, WithBot.coe_inj, WithTop.coe_inj]
    cases s <;> cases t <;>
      simp only [eq, Bool.and_eq_true, Bool.or_eq_true, decide_eq_true_eq, if_true, if_false,
        Bool.false_eq_true, reduceCtorEq, false_or, true_or, and_true] <;> omega

/-- Comparison of numbers is comparison of their places. -/
theorem lt_iff {x y : Binary64} :
    x.lt y = true ↔ x.IsNumber ∧ y.IsNumber ∧ x.place < y.place := by
  constructor
  · intro h
    obtain ⟨hx, hy⟩ := isNumber_of_lt h
    exact ⟨hx, hy, (lt_iff_place hx hy).mp h⟩
  · rintro ⟨hx, hy, h⟩
    exact (lt_iff_place hx hy).mpr h

theorem le_iff {x y : Binary64} :
    x.le y = true ↔ x.IsNumber ∧ y.IsNumber ∧ x.place ≤ y.place := by
  rw [le, Bool.or_eq_true, le_iff_lt_or_eq]
  constructor
  · rintro (h | h)
    · obtain ⟨hx, hy⟩ := isNumber_of_lt h
      exact ⟨hx, hy, .inl ((lt_iff_place hx hy).mp h)⟩
    · obtain ⟨hx, hy⟩ := isNumber_of_eq h
      exact ⟨hx, hy, .inr ((eq_iff_place hx hy).mp h)⟩
  · rintro ⟨hx, hy, h | h⟩
    · exact .inl ((lt_iff_place hx hy).mpr h)
    · exact .inr ((eq_iff_place hx hy).mpr h)

/-! ## What follows from places -/

section
variable {x y z : Binary64}

theorem le_trans (hxy : x.le y = true) (hyz : y.le z = true) : x.le z = true := by
  obtain ⟨hx, -, hxy⟩ := le_iff.mp hxy
  obtain ⟨-, hz, hyz⟩ := le_iff.mp hyz
  exact le_iff.mpr ⟨hx, hz, hxy.trans hyz⟩

theorem lt_of_lt_of_le (hxy : x.lt y = true) (hyz : y.le z = true) : x.lt z = true := by
  obtain ⟨hx, -, hxy⟩ := lt_iff.mp hxy
  obtain ⟨-, hz, hyz⟩ := le_iff.mp hyz
  exact lt_iff.mpr ⟨hx, hz, hxy.trans_le hyz⟩

theorem lt_of_le_of_lt (hxy : x.le y = true) (hyz : y.lt z = true) : x.lt z = true := by
  obtain ⟨hx, -, hxy⟩ := le_iff.mp hxy
  obtain ⟨-, hz, hyz⟩ := lt_iff.mp hyz
  exact lt_iff.mpr ⟨hx, hz, hxy.trans_lt hyz⟩

theorem le_iff_not_lt (hx : x.IsNumber) (hy : y.IsNumber) : x.le y = true ↔ y.lt x = false := by
  rw [← Bool.not_eq_true, lt_iff, le_iff]
  constructor
  · rintro ⟨-, -, h⟩ ⟨-, -, h'⟩
    exact absurd h' (not_lt_of_ge h)
  · intro h
    exact ⟨hx, hy, le_of_not_gt fun h' => h ⟨hy, hx, h'⟩⟩

end

end Ostinato.Binary64
