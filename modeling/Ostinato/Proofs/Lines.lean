import Mathlib
import Ostinato.Statement
import Ostinato.Text.Blank

/-!
# Lines and positions

`positions` gives every character of a text its line and column, by the line breaks in front of it.
`lines` cuts the text at the same breaks and drops them. The two agree: each line stands somewhere in
the text with its characters at columns one, two and so on (`lines_stand`), and a character that
breaks no line is on the line that its position names (`exists_line`). Everything here is by induction
over the lines of a text (`induct`), the last of which no break ends.
-/

namespace Ostinato.Text

/-! ## Line breaks -/

/-- Whether a line ends with a character. A carriage return right before a line feed ends none: the
line feed does. -/
def endsLine (c : Char) (rest : List Char) : Bool :=
  isLineBreak c && !(c == '\r' && rest.head? == some '\n')

/-- The character `c` of a text, at index `j`, ends a line. -/
def BreakAt (text : List Char) (j : Nat) (c : Char) : Prop :=
  text[j]? = some c ∧ endsLine c (text.drop (j + 1)) = true

/-- The position of every character of a text that starts at some line and column. -/
def positionsFrom (line column : Int) : List Char → List Pos
  | [] => []
  | c :: rest =>
    ⟨line, column⟩ ::
      if endsLine c rest then positionsFrom (line + 1) 1 rest
      else positionsFrom line (column + 1) rest

def positions (text : List Char) : List Pos :=
  positionsFrom 1 1 text

/-- The count of lines that end in front of an index. -/
def breaks : List Char → Nat → Nat
  | c :: rest, i + 1 => (if endsLine c rest then 1 else 0) + breaks rest i
  | _, _ => 0

/-- No line break is among the characters. -/
def Unbroken (cs : List Char) : Prop := ∀ c ∈ cs, isLineBreak c = false

/-- A line break, and what may come behind it. -/
inductive Break : List Char → List Char → Prop where
  | single {c : Char} {rest : List Char} : endsLine c rest = true → Break [c] rest
  | pair {rest : List Char} : Break ['\r', '\n'] rest

section
variable {c : Char} {l b rest : List Char}

theorem endsLine_eq_false (h : isLineBreak c = false) (rest : List Char) :
    endsLine c rest = false := by
  rw [endsLine, h, Bool.false_and]

theorem endsLine_congr {rest' : List Char} (h : rest.head? = some '\n' ↔ rest'.head? = some '\n') :
    endsLine c rest = endsLine c rest' := by
  have hhead : (rest.head? == some '\n') = (rest'.head? == some '\n') := by
    rw [Bool.eq_iff_iff, beq_iff_eq, beq_iff_eq, h]
  rw [endsLine, endsLine, hhead]

theorem Break.isLineBreak (hb : Break b rest) : ∀ d ∈ b, isLineBreak d = true := by
  cases hb with
  | single hc =>
    rw [endsLine, Bool.and_eq_true] at hc
    simpa using hc.1
  | pair => simp [Text.isLineBreak]

theorem Break.ne_nil (hb : Break b rest) : b ≠ [] := by
  cases hb <;> simp

theorem exists_break (h : isLineBreak c = true) (rest : List Char) :
    ∃ b rest', c :: rest = b ++ rest' ∧ Break b rest' := by
  cases he : endsLine c rest with
  | true => exact ⟨[c], rest, rfl, .single he⟩
  | false =>
    rw [endsLine, h, Bool.true_and, Bool.not_eq_false', Bool.and_eq_true, beq_iff_eq,
      beq_iff_eq] at he
    obtain ⟨rfl, hfeed⟩ := he
    obtain ⟨rest', rfl⟩ := List.head?_eq_some_iff.mp hfeed
    exact ⟨['\r', '\n'], rest', rfl, .pair⟩

theorem linesFrom_cut (hl : Unbroken l) (hb : Break b rest) (line : List Char) :
    linesFrom line (l ++ (b ++ rest)) = (line.reverse ++ l) :: linesFrom [] rest := by
  induction l generalizing line with
  | nil =>
    rw [List.nil_append, List.append_nil]
    cases hb with
    | pair => rfl
    | @single c _ hc =>
      rw [endsLine, Bool.and_eq_true, Bool.not_eq_true', Bool.and_eq_false_iff] at hc
      rw [List.singleton_append, linesFrom, if_pos hc.1]
      rintro rest' rfl rfl
      simp at hc
  | cons c l ih =>
    obtain ⟨hc, hl⟩ := List.forall_mem_cons.mp hl
    rw [List.cons_append, linesFrom, hc, if_neg Bool.false_ne_true, ih hl, List.reverse_cons,
      List.append_assoc, List.singleton_append]
    rintro _ rfl
    exact absurd hc (by decide)

theorem lines_cut (hl : Unbroken l) (hb : Break b rest) :
    lines (l ++ (b ++ rest)) = l :: lines rest :=
  linesFrom_cut hl hb []

theorem linesFrom_last (hl : Unbroken l) (line : List Char) :
    linesFrom line l = if line ++ l = [] then [] else [line.reverse ++ l] := by
  induction l generalizing line with
  | nil => cases line <;> simp [linesFrom]
  | cons c l ih =>
    obtain ⟨hc, hl⟩ := List.forall_mem_cons.mp hl
    rw [linesFrom, hc, if_neg Bool.false_ne_true, ih hl]
    · simp
    · rintro _ rfl
      exact absurd hc (by decide)

theorem lines_last (hl : Unbroken l) : lines l = if l = [] then [] else [l] :=
  linesFrom_last hl []

/-- Induction over the lines of a text. -/
@[elab_as_elim]
theorem induct {P : List Char → Prop} (last : ∀ l, Unbroken l → P l)
    (cut : ∀ l b rest, Unbroken l → Break b rest → P rest → P (l ++ (b ++ rest))) :
    ∀ text, P text := by
  intro text
  induction hn : text.length using Nat.strong_induction_on generalizing text with
  | _ n ih =>
    have hsplit := List.takeWhile_append_dropWhile (p := fun c => !isLineBreak c) (l := text)
    have hl : Unbroken (text.takeWhile fun c => !isLineBreak c) := fun c hc => by
      simpa using List.mem_takeWhile_imp hc
    cases hd : text.dropWhile fun c => !isLineBreak c with
    | nil =>
      rw [hd, List.append_nil] at hsplit
      rw [← hsplit]
      exact last _ hl
    | cons c more =>
      have hc : isLineBreak c = true := by
        have := List.head_dropWhile_not (fun c => !isLineBreak c) (l := text) (by simp [hd])
        simpa [hd] using this
      obtain ⟨b, rest, hrest, hb⟩ := exists_break hc more
      rw [hd, hrest] at hsplit
      have hlt : rest.length < n := by
        have := congrArg List.length hsplit
        have := List.length_pos_iff.mpr hb.ne_nil
        simp at *
        omega
      rw [← hsplit]
      exact cut _ b rest hl hb (ih rest.length hlt rest rfl)

/-! ## Positions -/

theorem positionsFrom_unbroken (hl : Unbroken l) (line column : Int) (rest : List Char) :
    positionsFrom line column (l ++ rest) =
      (List.range l.length).map (fun j : Nat => ⟨line, column + j⟩) ++
        positionsFrom line (column + l.length) rest := by
  induction l generalizing column with
  | nil => simp
  | cons c l ih =>
    obtain ⟨hc, hl⟩ := List.forall_mem_cons.mp hl
    rw [List.cons_append, positionsFrom, endsLine_eq_false hc, if_neg Bool.false_ne_true, ih hl,
      List.length_cons, List.range_succ_eq_map, List.map_cons, List.map_map]
    simp [Function.comp_def, Int.add_assoc, Int.add_comm 1]

theorem positionsFrom_break (hb : Break b rest) (line column : Int) :
    ∃ ps, ps.length = b.length ∧
      positionsFrom line column (b ++ rest) = ps ++ positionsFrom (line + 1) 1 rest := by
  cases hb with
  | @single c _ hc => exact ⟨[⟨line, column⟩], rfl, by simp [positionsFrom, hc]⟩
  | pair => exact ⟨[⟨line, column⟩, ⟨line, column + 1⟩], rfl, rfl⟩

theorem exists_positionsFrom_cut (hl : Unbroken l) (hb : Break b rest) (line column : Int) :
    ∃ ps, ps.length = l.length + b.length ∧
      (∀ j < l.length, ps[j]? = some ⟨line, column + j⟩) ∧
      positionsFrom line column (l ++ (b ++ rest)) = ps ++ positionsFrom (line + 1) 1 rest := by
  obtain ⟨ps, hps, hbreak⟩ := positionsFrom_break hb line (column + l.length)
  refine ⟨(List.range l.length).map (fun j : Nat => ⟨line, column + j⟩) ++ ps, by simp [hps],
    fun j hj => ?_, ?_⟩
  · rw [List.getElem?_append_left (by simpa using hj)]
    simp [hj]
  · rw [positionsFrom_unbroken hl, hbreak, List.append_assoc]

end

section
variable {cs : List Char} {line column : Int} {i j : Nat} {p : Pos}

theorem line_positionsFrom (h : (positionsFrom line column cs)[i]? = some p) :
    p.line = line + breaks cs i := by
  induction cs generalizing line column i with
  | nil => cases h
  | cons c cs ih =>
    cases i with
    | zero =>
      cases h
      simp [breaks]
    | succ i =>
      rw [positionsFrom, List.getElem?_cons_succ] at h
      rw [breaks]
      split at h
      · rw [ih h, if_pos ‹_›]
        push_cast
        omega
      · rw [ih h, if_neg ‹_›, Nat.zero_add]

theorem feed_le (c : Char) (rest : List Char) :
    (if c == '\n' then 1 else 0) ≤ if endsLine c rest then 1 else 0 := by
  split
  · rename_i hfeed
    obtain rfl := beq_iff_eq.mp hfeed
    exact Nat.le_refl 1
  · exact Nat.zero_le _

theorem count_feed_le (cs : List Char) (i : Nat) : (cs.take i).count '\n' ≤ breaks cs i := by
  induction cs generalizing i with
  | nil => simp
  | cons c cs ih =>
    cases i with
    | zero => simp
    | succ i =>
      rw [List.take_succ_cons, List.count_cons, breaks, Nat.add_comm]
      exact Nat.add_le_add (feed_le c cs) (ih i)

/-- If no more lines end than there are line feeds, these end all of them. -/
theorem eq_feed_of_breaks_le (h : breaks cs i ≤ (cs.take i).count '\n') :
    ∀ j < i, ∀ c, BreakAt cs j c → c = '\n' := by
  induction cs generalizing i with
  | nil =>
    rintro j - c ⟨hc, -⟩
    cases hc
  | cons d cs ih =>
    intro j hj c hc
    obtain ⟨i, rfl⟩ : ∃ k, i = k + 1 := ⟨i - 1, by omega⟩
    have hfirst := feed_le d cs
    have hrest := count_feed_le cs i
    rw [List.take_succ_cons, List.count_cons, breaks] at h
    cases j with
    | succ j => exact ih (i := i) (by omega) j (by omega) c hc
    | zero =>
      obtain ⟨hget, hends⟩ := hc
      obtain rfl := Option.some.inj hget
      have hends : endsLine d cs = true := hends
      by_contra hne
      rw [if_pos hends, if_neg (by simpa using hne)] at h
      omega

theorem le_of_positionsFrom (h : (positionsFrom line column cs)[i]? = some p) :
    line < p.line ∨ line = p.line ∧ column ≤ p.column := by
  induction cs generalizing line column i with
  | nil => cases h
  | cons c cs ih =>
    cases i with
    | zero =>
      cases h
      exact .inr ⟨rfl, le_rfl⟩
    | succ i =>
      rw [positionsFrom, List.getElem?_cons_succ] at h
      split at h
      · have := ih h
        omega
      · have := ih h
        omega

theorem positionsFrom_succ_ne {c : Char} :
    (positionsFrom line column (c :: cs))[i + 1]? ≠ some ⟨line, column⟩ := by
  rw [positionsFrom, List.getElem?_cons_succ]
  intro h
  split at h
  · have := le_of_positionsFrom h
    simp only at this
    omega
  · have := le_of_positionsFrom h
    simp only at this
    omega

theorem positionsFrom_injective (hi : (positionsFrom line column cs)[i]? = some p)
    (hj : (positionsFrom line column cs)[j]? = some p) : i = j := by
  induction cs generalizing line column i j with
  | nil => cases hi
  | cons c cs ih =>
    cases i with
    | zero =>
      cases hi
      cases j with
      | zero => rfl
      | succ j => exact absurd hj positionsFrom_succ_ne
    | succ i =>
      cases j with
      | zero =>
        cases hj
        exact absurd hi positionsFrom_succ_ne
      | succ j =>
        rw [positionsFrom, List.getElem?_cons_succ] at hi hj
        split at hi
        · rw [if_pos ‹_›] at hj
          rw [ih hi hj]
        · rw [if_neg ‹_›] at hj
          rw [ih hi hj]

theorem positions_injective (hi : (positions cs)[i]? = some p) (hj : (positions cs)[j]? = some p) :
    i = j :=
  positionsFrom_injective hi hj

end

/-! ## Lines in a text -/

private theorem linesFrom_stand (text : List Char) (n : Nat) {k : Nat} {l : List Char}
    (h : (lines text)[k]? = some l) : Unbroken l ∧ ∃ start, l <+: text.drop start ∧
      ∀ j < l.length, (positionsFrom (n + 1) 1 text)[start + j]? = some ⟨n + k + 1, j + 1⟩ := by
  induction text using induct generalizing n k with
  | last l' hl =>
    rw [lines_last hl] at h
    split at h
    · cases h
    · obtain ⟨rfl, rfl⟩ : k = 0 ∧ l' = l := by
        cases k with
        | zero => exact ⟨rfl, Option.some.inj h⟩
        | succ k => cases h
      refine ⟨hl, 0, by simp, fun j hj => ?_⟩
      have hpos := positionsFrom_unbroken hl (n + 1) 1 []
      rw [List.append_nil] at hpos
      rw [hpos, Nat.zero_add, List.getElem?_append_left (by simpa using hj)]
      simp [hj, Int.add_comm]
  | cut l' b rest hl hb ih =>
    rw [lines_cut hl hb] at h
    obtain ⟨ps, hlength, hps, hpos⟩ := exists_positionsFrom_cut hl hb (n + 1) 1
    rw [hpos]
    cases k with
    | zero =>
      obtain rfl := Option.some.inj h
      refine ⟨hl, 0, by simp, fun j hj => ?_⟩
      rw [Nat.zero_add, List.getElem?_append_left (by omega), hps j hj]
      simp [Int.add_comm]
    | succ k =>
      obtain ⟨hunbroken, start, hprefix, hstart⟩ := ih (n + 1) h
      refine ⟨hunbroken, l'.length + b.length + start, ?_, fun j hj => ?_⟩
      · rwa [← List.append_assoc, ← List.length_append, List.drop_append, List.drop_of_length_le
          (by omega), Nat.add_sub_cancel_left]
      · have := hstart j hj
        rw [List.getElem?_append_right (by omega), hlength,
          show l'.length + b.length + start + j - (l'.length + b.length) = start + j by omega]
        push_cast at this ⊢
        rw [this]
        simp
        omega

/-- A line of a text stands in it, its characters at the columns from one on. -/
theorem lines_stand {text : List Char} {k : Nat} {l : List Char} (h : (lines text)[k]? = some l) :
    Unbroken l ∧ ∃ start, l <+: text.drop start ∧
      ∀ j < l.length, (positions text)[start + j]? = some ⟨k + 1, j + 1⟩ := by
  have := linesFrom_stand text 0 h
  simpa [positions] using this

private theorem exists_lineFrom (text : List Char) (n : Nat) {i : Nat} {c : Char} {p : Pos}
    (hc : text[i]? = some c) (hb : isLineBreak c = false)
    (hp : (positionsFrom (n + 1) 1 text)[i]? = some p) :
    ∃ (k j : Nat) (l : List Char), p = ⟨n + k + 1, j + 1⟩ ∧ (lines text)[k]? = some l ∧
      l[j]? = some c := by
  induction text using induct generalizing n i with
  | last l hl =>
    have hi : i < l.length := (List.getElem?_eq_some_iff.mp hc).1
    have hpos := positionsFrom_unbroken hl (n + 1) 1 []
    rw [List.append_nil] at hpos
    rw [hpos, List.getElem?_append_left (by simpa using hi)] at hp
    have hne : l ≠ [] := List.ne_nil_of_length_pos (by omega)
    refine ⟨0, i, l, ?_, by rw [lines_last hl, if_neg hne]; rfl, hc⟩
    simp [hi] at hp
    rw [← hp]
    simp [Int.add_comm]
  | cut l b rest hl hb' ih =>
    obtain ⟨ps, hlength, hps, hpos⟩ := exists_positionsFrom_cut hl hb' (n + 1) 1
    rw [hpos] at hp
    rw [lines_cut hl hb']
    rcases Nat.lt_or_ge i l.length with hi | hi
    · rw [List.getElem?_append_left hi] at hc
      rw [List.getElem?_append_left (by omega), hps i hi] at hp
      refine ⟨0, i, l, ?_, rfl, hc⟩
      rw [← Option.some.inj hp]
      simp [Int.add_comm]
    · rw [List.getElem?_append_right hi] at hc
      rcases Nat.lt_or_ge (i - l.length) b.length with hi' | hi'
      · rw [List.getElem?_append_left hi'] at hc
        rw [hb'.isLineBreak c (List.mem_of_getElem? hc)] at hb
        cases hb
      · rw [List.getElem?_append_right hi'] at hc
        rw [List.getElem?_append_right (by omega), hlength, Nat.sub_add_eq] at hp
        obtain ⟨k, j, l', hp', hl', hj⟩ := ih (n + 1) hc hp
        refine ⟨k + 1, j, l', ?_, hl', hj⟩
        rw [hp']
        simp
        omega

/-- A character that breaks no line is on the line that its position names, at its column. -/
theorem exists_line {text : List Char} {i : Nat} {c : Char} {p : Pos} (hc : text[i]? = some c)
    (hb : isLineBreak c = false) (hp : (positions text)[i]? = some p) :
    ∃ (k j : Nat) (l : List Char), p = ⟨k + 1, j + 1⟩ ∧ (lines text)[k]? = some l ∧
      l[j]? = some c := by
  have := exists_lineFrom text 0 hc hb (by simpa [positions] using hp)
  simpa using this

/-! ## Ends of lines -/

/-- A line ends between two parts of a text: the second one is empty or starts with a line break,
which is not a line feed whose carriage return is in the first one. -/
structure LineEnd (before after : List Char) : Prop where
  atBreak : ∀ c ∈ after.head?, isLineBreak c = true
  whole : before.getLast? = some '\r' → after.head? ≠ some '\n'

section
variable {l b rest x after : List Char}

theorem LineEnd.exists_break (h : LineEnd l after) :
    after = [] ∨ ∃ b rest, after = b ++ rest ∧ Break b rest := by
  cases after with
  | nil => exact .inl rfl
  | cons c rest => exact .inr (Text.exists_break (h.atBreak c rfl) rest)

theorem LineEnd.of_cut (h : LineEnd (l ++ (b ++ rest)) after) : LineEnd rest after where
  atBreak := h.atBreak
  whole hr := h.whole (by rw [List.getLast?_append, List.getLast?_append, hr]; rfl)

theorem Break.append (hb : Break b rest) (hx : rest = [] → b = ['\r'] → x.head? ≠ some '\n') :
    Break b (rest ++ x) := by
  cases hb with
  | pair => exact .pair
  | @single c _ hc =>
    refine .single ?_
    cases rest with
    | cons d rest => exact hc
    | nil =>
      rw [endsLine, Bool.and_eq_true] at hc ⊢
      refine ⟨hc.1, ?_⟩
      rw [Bool.not_eq_true', Bool.and_eq_false_iff, List.nil_append, beq_eq_false_iff_ne,
        beq_eq_false_iff_ne, or_iff_not_imp_left, not_not]
      rintro rfl
      exact hx rfl rfl

theorem Break.head?_ne (hb : Break b rest) (hr : b.getLast? = some '\r') :
    rest.head? ≠ some '\n' := by
  cases hb with
  | pair => exact absurd hr (by decide)
  | single hc =>
    obtain rfl := Option.some.inj hr
    rw [endsLine, Bool.and_eq_true, Bool.not_eq_true', Bool.and_eq_false_iff, beq_eq_false_iff_ne,
      beq_eq_false_iff_ne] at hc
    exact hc.2.resolve_left (not_not.mpr rfl)

theorem lines_end {text : List Char} {k : Nat} (h : (lines text)[k]? = some l) :
    ∃ before after, text = before ++ l ++ after ∧ LineEnd (before ++ l) after := by
  induction text using induct generalizing k with
  | last l' hl =>
    rw [lines_last hl] at h
    split at h
    · cases h
    · obtain rfl : l' = l := by
        cases k with
        | zero => exact Option.some.inj h
        | succ k => cases h
      exact ⟨[], [], by simp, by simp, by simp⟩
  | cut l' b rest hl hb ih =>
    rw [lines_cut hl hb] at h
    cases k with
    | zero =>
      obtain rfl := Option.some.inj h
      refine ⟨[], b ++ rest, rfl, fun c hc => ?_, fun hr => ?_⟩
      · rw [List.head?_append_of_ne_nil _ hb.ne_nil] at hc
        exact hb.isLineBreak c (List.mem_of_head? hc)
      · exact absurd (hl _ (List.mem_of_getLast? hr)) (by decide)
    | succ k =>
      obtain ⟨before, after, rfl, hend⟩ := ih h
      refine ⟨l' ++ (b ++ before), after, by simp, hend.atBreak, fun hr => ?_⟩
      cases hlast : (before ++ l).getLast? with
      | some d =>
        rw [List.append_assoc, List.append_assoc, List.getLast?_append, List.getLast?_append,
          hlast] at hr
        exact hend.whole (hlast.trans hr)
      | none =>
        -- The line before ends right here, with a break that is not cut.
        have hnil := List.getLast?_eq_none_iff.mp hlast
        rw [List.append_assoc, List.append_assoc, hnil, List.append_nil, List.getLast?_append,
          Option.or_eq_some_iff] at hr
        rw [hnil, List.nil_append] at hb
        refine hb.head?_ne (hr.resolve_right fun hno => ?_)
        exact hb.ne_nil (List.getLast?_eq_none_iff.mp hno.1)

/-- Putting something at the end of a line, within the line, changes that line alone. When nothing
stands on the last line, it becomes a line. -/
theorem lines_insert {before : List Char} (h : LineEnd before after) (hx : Unbroken x)
    (hne : x ≠ []) :
    ∃ first l last, lines (before ++ x ++ after) = first ++ (l ++ x) :: last ∧
      (lines (before ++ after) = first ++ l :: last ∨
        l = [] ∧ last = [] ∧ lines (before ++ after) = first) := by
  induction before using induct with
  | last l hl =>
    have hlx : Unbroken (l ++ x) := List.forall_mem_append.mpr ⟨hl, hx⟩
    rcases h.exists_break with rfl | ⟨b, rest, rfl, hb⟩
    · refine ⟨[], l, [], ?_, ?_⟩
      · rw [List.append_nil, lines_last hlx, if_neg (by simp [hne])]
        rfl
      · rw [List.append_nil, lines_last hl]
        split
        · exact .inr ⟨‹_›, rfl, rfl⟩
        · exact .inl rfl
    · exact ⟨[], l, lines rest, lines_cut hlx hb, .inl (lines_cut hl hb)⟩
  | cut l b rest hl hb ih =>
    obtain ⟨first, l', last, hnew, hold⟩ := ih h.of_cut
    have hwhole : rest = [] → b = ['\r'] → after.head? ≠ some '\n' := by
      rintro rfl rfl
      exact h.whole (by simp)
    have hstart : (x ++ after).head? ≠ some '\n' := by
      rw [List.head?_append_of_ne_nil _ hne]
      intro hfeed
      exact absurd (hx _ (List.mem_of_head? hfeed)) (by decide)
    have hbnew := hb.append (x := x ++ after) fun _ _ => hstart
    have hbold := hb.append hwhole
    refine ⟨l :: first, l', last, ?_, ?_⟩
    · rw [List.append_assoc] at hnew
      rw [show l ++ (b ++ rest) ++ x ++ after = l ++ (b ++ (rest ++ (x ++ after))) by simp,
        lines_cut hl hbnew, hnew]
      rfl
    · rw [show l ++ (b ++ rest) ++ after = l ++ (b ++ (rest ++ after)) by simp,
        lines_cut hl hbold]
      rcases hold with hold | ⟨hl', hlast, hold⟩
      · exact .inl (by rw [hold]; rfl)
      · exact .inr ⟨hl', hlast, by rw [hold]⟩

end

end Ostinato.Text
