import Mathlib
import Ostinato.Proofs.Reading
import Ostinato.Source.Tree

/-!
# Indentation decides the tree

A row is a line that is not blank, with its indentation. The parent of a row is the last block line
before it that is less indented than the row and than everything between the two. `forest` is the
tree of these parents, written down without a word about how a text is read.

Reading keeps a stack of open blocks instead. The two are tied together by `group`, the tree by
recursion on the rows: a block takes the rows right after it that are deeper, and the rest goes on
beside it. `complete` says what tree some open blocks will have become when further rows have been
taken in, and no row changes it; so reading gives `group`. That `group` is the tree of the parents
is shown for a run of rows inside all the rows.
-/

namespace Ostinato.Source

/-- A line that is not blank: its indentation and what it says. -/
structure Row where
  width : Nat
  line : Line

def Line.isBlock : Line → Bool
  | .label .. | .loop .. => true
  | .plain _ => false

def Line.statement : Line → List Statement → Statement
  | .label name pos, body => .label name body pos
  | .loop count pos, body => .loop count body pos
  | .plain s, _ => s

/-- The rows of some lines of text, which are numbered from `number`. -/
def rows (number : Int) : List (List Char) → Except (Fault × Pos) (List Row)
  | [] => .ok []
  | text :: rest =>
    match readLine number text with
    | .error e => .error e
    | .ok none => rows (number + 1) rest
    | .ok (some l) => (rows (number + 1) rest).map (⟨indent text, l⟩ :: ·)

/-- The rows of a source text, block comments being blanked before. -/
def textRows (text : List Char) : Except (Fault × Pos) (List Row) :=
  match opening? (blankComments text) with
  | some pos => .error (.unclosedComment, pos)
  | none => rows 1 (Text.lines (blankComments text))

/-! ## The tree of the parents -/

def rowAt (rs : List Row) (i : Nat) : Row :=
  rs.getD i ⟨0, .plain default⟩

/-- Row `i` opens a block, and from there up to row `j` everything is deeper than it. -/
def Encloses (rs : List Row) (i j : Nat) : Prop :=
  (rowAt rs i).line.isBlock = true ∧ (rowAt rs i).width < (rowAt rs j).width ∧
    ∀ k < j, i < k → (rowAt rs i).width < (rowAt rs k).width

instance (rs : List Row) (i j : Nat) : Decidable (Encloses rs i j) :=
  inferInstanceAs (Decidable (_ ∧ _ ∧ _))

/-- The last row before `j` that encloses it. -/
def parent? (rs : List Row) (j : Nat) : Option Nat :=
  ((List.range j).filter fun i => Encloses rs i j).max?

/-- The rows with a given parent, in order; without one, those at the top level. -/
def children (rs : List Row) (p : Option Nat) : List Nat :=
  (List.range rs.length).filter fun j => parent? rs j = p

theorem parent?_eq_some_iff {rs : List Row} {i j : Nat} :
    parent? rs j = some i ↔ i < j ∧ Encloses rs i j ∧ ∀ k < j, Encloses rs k j → k ≤ i := by
  simp only [parent?, List.max?_eq_some_iff, List.mem_filter, List.mem_range, decide_eq_true_eq]
  constructor
  · rintro ⟨⟨hij, he⟩, hmax⟩
    exact ⟨hij, he, fun k hk hek => hmax k ⟨hk, hek⟩⟩
  · rintro ⟨hij, he, hmax⟩
    exact ⟨⟨hij, he⟩, fun k hk => hmax k hk.1 hk.2⟩

theorem lt_of_mem_children {rs : List Row} {i j : Nat} (h : j ∈ children rs (some i)) :
    i < j ∧ j < rs.length := by
  simp only [children, List.mem_filter, List.mem_range, decide_eq_true_eq] at h
  exact ⟨(parent?_eq_some_iff.mp h.2).1, h.1⟩

/-- The statement of a row: its body is made of the rows it is the parent of. -/
def node (rs : List Row) (i : Nat) : Statement :=
  (rowAt rs i).line.statement ((children rs (some i)).attach.map fun j => node rs j.1)
termination_by rs.length - i
decreasing_by
  have := lt_of_mem_children j.2
  omega

def forest (rs : List Row) : List Statement :=
  (children rs none).map (node rs)

theorem node_eq (rs : List Row) (i : Nat) :
    node rs i = (rowAt rs i).line.statement ((children rs (some i)).map (node rs)) := by
  rw [node, List.attach_map_val (f := node rs)]

/-! ## The tree by recursion -/

/-- A block takes the rows right after it that are deeper. -/
def group : List Row → List Statement
  | [] => []
  | r :: rest =>
    if r.line.isBlock then
      r.line.statement (group (rest.takeWhile (r.width < ·.width))) ::
        group (rest.dropWhile (r.width < ·.width))
    else r.line.statement [] :: group rest
termination_by rs => rs.length
decreasing_by
  · have := (List.takeWhile_sublist (r.width < ·.width) (l := rest)).length_le
    simp; omega
  · have := (List.dropWhile_sublist (r.width < ·.width) (l := rest)).length_le
    simp; omega
  · simp

theorem group_nil : group [] = [] := by rw [group]

theorem group_block {r : Row} (hr : r.line.isBlock = true) (rest : List Row) :
    group (r :: rest) = r.line.statement (group (rest.takeWhile (r.width < ·.width))) ::
      group (rest.dropWhile (r.width < ·.width)) := by
  rw [group, if_pos hr]

theorem group_plain {r : Row} (hr : r.line.isBlock = false) (rest : List Row) :
    group (r :: rest) = r.line.statement [] :: group rest := by
  rw [group, if_neg (by simp [hr])]

/-- The tree that open blocks become with further rows; `extra` is still to go into the innermost
of them. -/
def complete (top extra : List Statement) : List OpenBlock → List Row → List Statement
  | [], rs => top ++ (extra ++ group rs)
  | b :: outer, rs =>
    complete top
      [OpenBlock.close { b with
        body := b.body ++ (extra ++ group (rs.takeWhile (b.indent < ·.width))) }]
      outer (rs.dropWhile (b.indent < ·.width))

theorem complete_add (n : Nest) (s : Statement) (extra : List Statement) (rs : List Row) :
    complete (n.add s).top extra (n.add s).blocks rs = complete n.top (s :: extra) n.blocks rs := by
  obtain ⟨top, blocks⟩ := n
  cases blocks with
  | nil => simp [Nest.add, complete]
  | cons b outer => simp [Nest.add, OpenBlock.add, complete]

theorem complete_nil (n : Nest) : complete n.top [] n.blocks [] = n.finish := by
  obtain ⟨top, blocks⟩ := n
  cases blocks with
  | nil => simp [complete, group_nil, Nest.finish, Nest.dedent]
  | cons b outer =>
    simp only [Nest.finish, Nest.dedent]
    induction outer generalizing b with
    | nil => simp [complete, group_nil, Nest.closeFrom]
    | cons o outer ih =>
      rw [Nest.closeFrom, if_pos (Nat.zero_le _), ← ih]
      simp [complete, group_nil, OpenBlock.add]

/-- A block that row `r` closes takes none of the rows from `r` on. -/
theorem complete_closed {b : OpenBlock} {r : Row} (hw : r.width ≤ b.indent)
    (top : List Statement) (outer : List OpenBlock) (rs : List Row) :
    complete top [] (b :: outer) (r :: rs) = complete top [b.close] outer (r :: rs) := by
  have hb : ¬ b.indent < r.width := by omega
  rw [complete, List.takeWhile_cons_of_neg (by simpa using hb),
    List.dropWhile_cons_of_neg (by simpa using hb)]
  simp [group_nil]

theorem complete_dedent (n : Nest) (r : Row) (rs : List Row) :
    complete (n.dedent r.width).top [] (n.dedent r.width).blocks (r :: rs) =
      complete n.top [] n.blocks (r :: rs) := by
  obtain ⟨top, blocks⟩ := n
  cases blocks with
  | nil => rfl
  | cons b outer =>
    simp only [Nest.dedent]
    induction outer generalizing b with
    | nil =>
      rw [Nest.closeFrom]
      split
      · rename_i hw
        rw [complete_closed hw]
        simp [complete]
      · rfl
    | cons o outer ih =>
      rw [Nest.closeFrom]
      split
      · rename_i hw
        rw [ih, complete_closed hw]
        exact complete_add ⟨top, o :: outer⟩ b.close [] (r :: rs)
      · rfl

theorem indent_lt_of_dedent {n : Nest} {w : Nat} {b : OpenBlock} {outer : List OpenBlock}
    (h : (n.dedent w).blocks = b :: outer) : b.indent < w := by
  obtain ⟨top, blocks⟩ := n
  cases blocks with
  | nil => simp [Nest.dedent] at h
  | cons b' outer' =>
    simp only [Nest.dedent] at h
    induction outer' generalizing b' with
    | nil =>
      rw [Nest.closeFrom] at h
      split at h
      · simp at h
      · cases h
        omega
    | cons o outer' ih =>
      rw [Nest.closeFrom] at h
      split at h
      · exact ih _ h
      · cases h
        omega

theorem takeWhile_deeper {v w : Nat} (h : v < w) (rs : List Row) :
    (rs.takeWhile (v < ·.width)).takeWhile (w < ·.width) = rs.takeWhile (w < ·.width) ∧
      (rs.takeWhile (v < ·.width)).dropWhile (w < ·.width) =
        (rs.dropWhile (w < ·.width)).takeWhile (v < ·.width) ∧
      (rs.dropWhile (w < ·.width)).dropWhile (v < ·.width) = rs.dropWhile (v < ·.width) := by
  induction rs with
  | nil => simp
  | cons r rs ih =>
    by_cases hw : w < r.width
    · have hv : v < r.width := by omega
      simpa [hw, hv] using ih
    · by_cases hv : v < r.width <;> simp [hw, hv]

/-- A row that is deeper than the innermost open block starts in it. -/
theorem complete_block {r : Row} (hr : r.line.isBlock = true) {blocks : List OpenBlock}
    (hb : ∀ b outer, blocks = b :: outer → b.indent < r.width) (top : List Statement)
    (rs : List Row) :
    complete top [] blocks (r :: rs) =
      complete top [r.line.statement (group (rs.takeWhile (r.width < ·.width)))] blocks
        (rs.dropWhile (r.width < ·.width)) := by
  cases blocks with
  | nil => simp [complete, group_block hr]
  | cons b outer =>
    have hw := hb b outer rfl
    obtain ⟨h1, h2, h3⟩ := takeWhile_deeper hw rs
    simp only [complete]
    rw [List.takeWhile_cons_of_pos (by simpa using hw),
      List.dropWhile_cons_of_pos (by simpa using hw), group_block hr, h1, h2, h3]
    rfl

theorem complete_plain {r : Row} (hr : r.line.isBlock = false) {blocks : List OpenBlock}
    (hb : ∀ b outer, blocks = b :: outer → b.indent < r.width) (top : List Statement)
    (rs : List Row) :
    complete top [] blocks (r :: rs) = complete top [r.line.statement []] blocks rs := by
  cases blocks with
  | nil => simp [complete, group_plain hr]
  | cons b outer =>
    have hw := hb b outer rfl
    simp only [complete]
    rw [List.takeWhile_cons_of_pos (by simpa using hw),
      List.dropWhile_cons_of_pos (by simpa using hw), group_plain hr]
    rfl

theorem complete_feed (n : Nest) (r : Row) (rs : List Row) :
    complete (n.feed r.width r.line).top [] (n.feed r.width r.line).blocks rs =
      complete n.top [] n.blocks (r :: rs) := by
  rw [← complete_dedent]
  have hb : ∀ b outer, (n.dedent r.width).blocks = b :: outer → b.indent < r.width :=
    fun b outer h => indent_lt_of_dedent h
  obtain ⟨width, line⟩ := r
  cases line with
  | label name pos =>
    rw [complete_block rfl hb]
    simp [Nest.feed, complete, OpenBlock.close, Line.statement]
  | loop count pos =>
    rw [complete_block rfl hb]
    simp [Nest.feed, complete, OpenBlock.close, Line.statement]
  | plain s =>
    rw [complete_plain rfl hb]
    exact complete_add (n.dedent width) s [] rs

/-- Reading rows gives the tree by recursion. -/
theorem finish_foldl_feed (rs : List Row) (n : Nest) :
    (rs.foldl (fun n r => n.feed r.width r.line) n).finish = complete n.top [] n.blocks rs := by
  induction rs generalizing n with
  | nil => exact (complete_nil n).symm
  | cons r rs ih => rw [List.foldl_cons, ih, complete_feed]

theorem readLines_eq (number : Int) (n : Nest) (texts : List (List Char)) :
    readLines number n texts =
      (rows number texts).map (List.foldl (fun n r => n.feed r.width r.line) n) := by
  induction texts generalizing number n with
  | nil => rfl
  | cons text texts ih =>
    simp only [readLines, rows]
    cases readLine number text with
    | error e => rfl
    | ok l =>
      cases l with
      | none => exact ih ..
      | some l =>
        dsimp only
        rw [ih]
        cases rows (number + 1) texts <;> rfl

theorem tree_eq (text : List Char) : tree text = (textRows text).map group := by
  simp only [tree, textRows]
  cases opening? (blankComments text) with
  | some pos => rfl
  | none =>
    dsimp only
    rw [readLines_eq]
    cases rows 1 (Text.lines (blankComments text)) with
    | error e => rfl
    | ok rs =>
      simp only [Except.map, finish_foldl_feed]
      simp [complete]

/-! ## The two trees agree -/

section
variable {rs : List Row} {i j c a : Nat}

/-- Row `c` ends the blocks that are not less indented than it: none of them encloses a row from
`c` on. -/
theorem not_encloses_of_le (hic : i < c) (hcj : c ≤ j)
    (hw : (rowAt rs c).width ≤ (rowAt rs i).width) : ¬ Encloses rs i j := by
  rintro ⟨-, h1, h2⟩
  rcases Nat.eq_or_lt_of_le hcj with rfl | hlt
  · omega
  · have := h2 c hlt hic
    omega

theorem le_parent {p : Nat} (h : parent? rs j = some p) (hi : i < j) (he : Encloses rs i j) :
    i ≤ p := (parent?_eq_some_iff.mp h).2.2 i hi he

theorem exists_parent (hi : i < j) (he : Encloses rs i j) : ∃ p, parent? rs j = some p ∧ i ≤ p := by
  cases h : parent? rs j with
  | some p => exact ⟨p, rfl, le_parent h hi he⟩
  | none =>
    simp only [parent?, List.max?_eq_none_iff, List.filter_eq_nil_iff, List.mem_range,
      decide_eq_true_eq] at h
    exact absurd he (h i hi)

/-- The rows from `a` up to `b` lie in the block `p`, and nothing after them lies in one of them. -/
structure Within (rs : List Row) (p : Option Nat) (a b : Nat) : Prop where
  le : b ≤ rs.length
  before : ∀ i, p = some i → i < a
  inside : ∀ j, a ≤ j → j < b → parent? rs j = p ∨ ∃ i, parent? rs j = some i ∧ a ≤ i
  after : ∀ j, b ≤ j → j < rs.length → ∀ i, parent? rs j = some i → i < a ∨ b ≤ i

variable {p : Option Nat} {b : Nat}

theorem Within.parent_first (h : Within rs p a b) (hab : a < b) : parent? rs a = p := by
  rcases h.inside a (Nat.le_refl a) hab with h | ⟨i, hi, hai⟩
  · exact h
  · have := (parent?_eq_some_iff.mp hi).1
    omega

theorem Within.plain (h : Within rs p a b) (ha : (rowAt rs a).line.isBlock = false) :
    Within rs p (a + 1) b := by
  have hne : ∀ j, parent? rs j ≠ some a := by
    intro j hj
    have := (parent?_eq_some_iff.mp hj).2.1.1
    simp [ha] at this
  refine ⟨h.le, fun i hi => by have := h.before i hi; omega, fun j hj hjb => ?_,
    fun j hj hjl i hi => ?_⟩
  · rcases h.inside j (by omega) hjb with hp | ⟨i, hi, hai⟩
    · exact .inl hp
    · have : i ≠ a := fun e => hne j (e ▸ hi)
      exact .inr ⟨i, hi, by omega⟩
  · have := h.after j hj hjl i hi
    omega

/-- Of the rows from `a` up to `b`, those behind `a` and before `c` are deeper than it, and `c` is
the first that is not. -/
structure Deeper (rs : List Row) (a c b : Nat) : Prop where
  lt : a < c
  le : c ≤ b
  deeper : ∀ k, a < k → k < c → (rowAt rs a).width < (rowAt rs k).width
  ends : c < b → (rowAt rs c).width ≤ (rowAt rs a).width

theorem Deeper.not_encloses (d : Deeper rs a c b) (hcb : c < b) (hai : a ≤ i) (hic : i < c)
    (hcj : c ≤ j) : ¬ Encloses rs i j := by
  refine not_encloses_of_le hic hcj ?_
  have hc := d.ends hcb
  rcases Nat.eq_or_lt_of_le hai with rfl | hlt
  · exact hc
  · have := d.deeper i hlt hic
    omega

theorem Within.left (h : Within rs p a b) (d : Deeper rs a c b) (hcj : c ≤ j)
    (hj : j < rs.length) (hi : parent? rs j = some i) : i < a ∨ c ≤ i := by
  rcases Nat.eq_or_lt_of_le d.le with rfl | hcb
  · exact h.after j hcj hj i hi
  · by_cases hai : a ≤ i
    · by_cases hic : i < c
      · exact absurd (parent?_eq_some_iff.mp hi).2.1 (d.not_encloses hcb hai hic hcj)
      · omega
    · omega

theorem Within.body (h : Within rs p a b) (d : Deeper rs a c b)
    (ha : (rowAt rs a).line.isBlock = true) : Within rs (some a) (a + 1) c := by
  have := d.le
  have := h.le
  refine ⟨by omega, fun i hi => by cases hi; omega, fun j hj hjc => ?_, fun j hj hjl i hi => ?_⟩
  · have he : Encloses rs a j :=
      ⟨ha, d.deeper j hj hjc, fun k hk hak => d.deeper k hak (by omega)⟩
    obtain ⟨i, hi, hai⟩ := exists_parent (by omega) he
    by_cases e : i = a
    · exact .inl (e ▸ hi)
    · exact .inr ⟨i, hi, by omega⟩
  · have := h.left d hj hjl hi
    omega

theorem Within.rest (h : Within rs p a b) (d : Deeper rs a c b) : Within rs p c b := by
  have := d.lt
  have := h.le
  refine ⟨h.le, fun i hi => by have := h.before i hi; omega, fun j hj hjb => ?_,
    fun j hj hjl i hi => ?_⟩
  · rcases h.inside j (by omega) hjb with hp | ⟨i, hi, hai⟩
    · exact .inl hp
    · have := h.left d hj (by omega) hi
      exact .inr ⟨i, hi, by omega⟩
  · have := h.after j hj hjl i hi
    omega

theorem range'_split (hac : a ≤ c) (hcb : c ≤ b) :
    List.range' a (b - a) = List.range' a (c - a) ++ List.range' c (b - c) := by
  obtain ⟨m, rfl⟩ := Nat.le.dest hac
  obtain ⟨n, rfl⟩ := Nat.le.dest hcb
  rw [show a + m + n - a = m + n by omega, show a + m - a = m by omega,
    show a + m + n - (a + m) = n by omega, List.range'_append_1]

theorem Within.children_eq (h : Within rs p a b) (d : Deeper rs a c b) :
    children rs (some a) =
      (List.range' (a + 1) (c - (a + 1))).filter fun j => parent? rs j = some a := by
  have := d.lt
  have := d.le
  have := h.le
  rw [children, List.range_eq_range', ← Nat.sub_zero rs.length,
    range'_split (Nat.zero_le (a + 1)) (by omega), range'_split (a := a + 1) (c := c) (by omega) (by omega),
    List.filter_append, List.filter_append, Nat.sub_zero]
  have h1 : (List.range' 0 (a + 1)).filter (fun j => parent? rs j = some a) = [] := by
    simp only [List.filter_eq_nil_iff, List.mem_range'_1, decide_eq_true_eq]
    intro j hj hp
    have := (parent?_eq_some_iff.mp hp).1
    omega
  have h2 : (List.range' c (rs.length - c)).filter (fun j => parent? rs j = some a) = [] := by
    simp only [List.filter_eq_nil_iff, List.mem_range'_1, decide_eq_true_eq]
    intro j hj hp
    have := h.left d hj.1 (by omega) hp
    omega
  rw [h1, h2, List.nil_append, List.append_nil]

theorem rowAt_cons_zero (r : Row) (rest : List Row) : rowAt (r :: rest) 0 = r := rfl

theorem rowAt_cons_succ (r : Row) (rest : List Row) (k : Nat) :
    rowAt (r :: rest) (k + 1) = rowAt rest k := rfl

theorem rowAt_takeWhile (w : Nat) (rest : List Row) :
    (∀ k < (rest.takeWhile (w < ·.width)).length, w < (rowAt rest k).width ∧
      rowAt (rest.takeWhile (w < ·.width)) k = rowAt rest k) ∧
    (∀ k, rowAt (rest.dropWhile (w < ·.width)) k =
      rowAt rest ((rest.takeWhile (w < ·.width)).length + k)) ∧
    ((rest.takeWhile (w < ·.width)).length < rest.length →
      (rowAt rest (rest.takeWhile (w < ·.width)).length).width ≤ w) := by
  induction rest with
  | nil => simp [rowAt]
  | cons r rest ih =>
    by_cases hw : w < r.width
    · rw [List.takeWhile_cons_of_pos (by simpa using hw),
        List.dropWhile_cons_of_pos (by simpa using hw)]
      obtain ⟨h1, h2, h3⟩ := ih
      refine ⟨fun k hk => ?_, fun k => ?_, fun hl => ?_⟩
      · cases k with
        | zero => exact ⟨hw, rfl⟩
        | succ k => exact h1 k (by simpa using hk)
      · rw [h2, List.length_cons, Nat.add_right_comm, rowAt_cons_succ]
      · exact h3 (by simpa using hl)
    · rw [List.takeWhile_cons_of_neg (by simpa using hw),
        List.dropWhile_cons_of_neg (by simpa using hw)]
      refine ⟨fun k hk => by simp at hk, fun k => by simp, fun _ => ?_⟩
      rw [List.length_nil, rowAt_cons_zero]
      omega

/-- A run of rows that lies in the block `p` makes the statements of those of them whose parent
`p` is. -/
theorem group_eq_map_node {seg : List Row} (h : Within rs p a (a + seg.length))
    (hs : ∀ k < seg.length, rowAt rs (a + k) = rowAt seg k) :
    group seg =
      ((List.range' a seg.length).filter fun j => parent? rs j = p).map (node rs) := by
  fun_induction group seg generalizing a p with
  | case1 => rfl
  | case2 r rest hr ihBody ihRest =>
    have hra : rowAt rs a = r := hs 0 (by simp)
    have hrest : ∀ k < rest.length, rowAt rs (a + 1 + k) = rowAt rest k := fun k hk => by
      rw [show a + 1 + k = a + (k + 1) by omega]
      exact hs (k + 1) (by simpa using hk)
    obtain ⟨h1, h2, h3⟩ := rowAt_takeWhile r.width rest
    have hlen : (rest.takeWhile (r.width < ·.width)).length +
        (rest.dropWhile (r.width < ·.width)).length = rest.length := by
      rw [← List.length_append, List.takeWhile_append_dropWhile]
    generalize hn : (rest.takeWhile (r.width < ·.width)).length = n at h1 h2 h3 hlen
    generalize hm : (rest.dropWhile (r.width < ·.width)).length = m at hlen
    have hl : (r :: rest).length = n + m + 1 := by simp [← hlen]
    rw [hl] at h ⊢
    have d : Deeper rs a (a + 1 + n) (a + (n + m + 1)) := by
      refine ⟨by omega, by omega, fun k hak hk => ?_, fun hc => ?_⟩
      · obtain ⟨k', rfl⟩ := Nat.le.dest hak
        rw [hra, hrest k' (by omega)]
        exact (h1 k' (by omega)).1
      · rw [hra, hrest n (by omega)]
        exact h3 (by omega)
    have hbody := ihBody (a := a + 1) (p := some a) (by
      rw [hn]; exact h.body d (hra ▸ hr)) (fun k hk => by
        rw [hrest k (by omega), (h1 k (by omega)).2])
    have hafter := ihRest (a := a + 1 + n) (p := p) (by
      rw [hm, show a + 1 + n + m = a + (n + m + 1) by omega]; exact h.rest d) (fun k hk => by
        rw [h2, Nat.add_assoc, hrest (n + k) (by omega)])
    have hfirst : parent? rs a = p := h.parent_first (by omega)
    have hskip : (List.range' (a + 1) n).filter (fun j => parent? rs j = p) = [] := by
      simp only [List.filter_eq_nil_iff, List.mem_range'_1, decide_eq_true_eq]
      rintro j ⟨hj, hjn⟩ rfl
      rcases (h.body d (hra ▸ hr)).inside j hj (by omega) with hp | ⟨i, hp, hi⟩
      · exact absurd (h.before a hp) (by omega)
      · exact absurd (h.before i hp) (by omega)
    rw [hbody, hafter, hn, hm, List.range'_succ, List.filter_cons_of_pos (by simpa using hfirst),
      List.map_cons, node_eq, hra, h.children_eq d, show a + 1 + n - (a + 1) = n by omega,
      ← List.range'_append_1, List.filter_append, hskip, List.nil_append]
  | case3 r rest hr ih =>
    have hra : rowAt rs a = r := hs 0 (by simp)
    have hfirst : parent? rs a = p := h.parent_first (by simp)
    have hrest := ih (a := a + 1) (p := p) (by
      have := h.plain (by rw [hra]; simpa using hr)
      rwa [List.length_cons, show a + (rest.length + 1) = a + 1 + rest.length by omega] at this)
      (fun k hk => by
        rw [show a + 1 + k = a + (k + 1) by omega]
        exact hs (k + 1) (by simpa using hk))
    rw [hrest, List.length_cons, List.range'_succ, List.filter_cons_of_pos (by simpa using hfirst),
      List.map_cons, node_eq, hra]
    cases hl : r.line with
    | plain s => rfl
    | label | loop => simp [hl, Line.isBlock] at hr

end

theorem group_eq_forest (rs : List Row) : group rs = forest rs := by
  rw [forest, children, List.range_eq_range']
  refine group_eq_map_node ⟨by simp, fun i hi => absurd hi (by simp), fun j _ _ => ?_,
    fun j hj hl => absurd hl (by omega)⟩ (fun k _ => by rw [Nat.zero_add])
  cases h : parent? rs j with
  | none => exact .inl rfl
  | some i => exact .inr ⟨i, rfl, Nat.zero_le i⟩

/-! ## Every line is one statement -/

/-- The line that a statement stands on, its body apart. -/
def Line.ofStatement : Statement → Line
  | .label name _ pos => .label name pos
  | .loop count _ pos => .loop count pos
  | s => .plain s

theorem Line.ofStatement_plain {s : Statement} (hs : s.isBlock = false) :
    Line.ofStatement s = .plain s := by
  cases s with
  | label | loop => simp [Statement.isBlock] at hs
  | _ => rfl

theorem lines_nodes_group {rs : List Row} (h : ∀ r ∈ rs, r.line.InRange) :
    (Forest.nodes (group rs)).map Line.ofStatement = rs.map Row.line := by
  fun_induction group rs with
  | case1 => simp
  | case2 r rest hr ihBody ihRest =>
    have hrest : ∀ t ∈ rest, t.line.InRange := fun t ht => h t (List.mem_cons_of_mem r ht)
    have hbody := ihBody fun t ht => hrest t (List.takeWhile_subset _ ht)
    have hafter := ihRest fun t ht => hrest t (List.dropWhile_subset _ ht)
    have hsplit : rest.map Row.line = (rest.takeWhile (r.width < ·.width)).map Row.line ++
        (rest.dropWhile (r.width < ·.width)).map Row.line := by
      rw [← List.map_append, List.takeWhile_append_dropWhile]
    rw [List.map_cons, hsplit, ← hbody, ← hafter]
    cases hl : r.line with
    | plain s => simp [hl, Line.isBlock] at hr
    | label name pos => simp [Line.statement, Forest.nodes_label, Line.ofStatement]
    | loop count pos => simp [Line.statement, Forest.nodes_loop, Line.ofStatement]
  | case3 r rest hr ih =>
    have hrest := ih fun t ht => h t (List.mem_cons_of_mem r ht)
    cases hl : r.line with
    | label | loop => simp [hl, Line.isBlock] at hr
    | plain s =>
      have hs : IsPlain s := by
        have := h r (List.mem_cons_self ..)
        rwa [hl] at this
      rw [List.map_cons, hl, Line.statement, Forest.nodes_leaf hs.2, List.map_cons,
        Line.ofStatement_plain hs.2, hrest]

theorem readLine_ok {number : Int} {text : List Char} {l : Line}
    (h : readLine number text = .ok (some l)) :
    ∃ ts, tokens number text = .ok ts ∧ line ts = .ok l := by
  unfold readLine at h
  split at h
  · cases h
  · cases h
  · rename_i hts
    split at h
    · cases h
    · rename_i hl
      cases h
      exact ⟨_, hts, hl⟩

theorem rows_ok {number : Int} {texts : List (List Char)} {rs : List Row}
    (h : rows number texts = .ok rs) : ∀ r ∈ rs, ∃ (k : Nat) (l : List Char) (ts : List Token),
      texts[k]? = some l ∧ tokens (number + k) l = .ok ts ∧ line ts = .ok r.line := by
  induction texts generalizing number rs with
  | nil =>
    cases h
    simp
  | cons text texts ih =>
    have hlater : ∀ rest, rows (number + 1) texts = .ok rest → ∀ r ∈ rest,
        ∃ (k : Nat) (l : List Char) (ts : List Token), (text :: texts)[k]? = some l ∧
          tokens (number + k) l = .ok ts ∧ line ts = .ok r.line := by
      intro rest hrest r hr
      obtain ⟨k, l, ts, hk, hts, hline⟩ := ih hrest r hr
      refine ⟨k + 1, l, ts, hk, ?_, hline⟩
      rwa [Nat.cast_succ, Int.add_comm (k : Int), ← Int.add_assoc]
    simp only [rows] at h
    split at h
    · cases h
    · exact hlater rs h
    · rename_i l hl
      cases hrest : rows (number + 1) texts with
      | error e =>
        rw [hrest] at h
        cases h
      | ok rest =>
        rw [hrest] at h
        cases h
        refine List.forall_mem_cons.mpr ⟨?_, hlater rest hrest⟩
        obtain ⟨ts, hts, hline⟩ := readLine_ok hl
        exact ⟨0, text, ts, rfl, by simpa using hts, hline⟩

theorem textRows_ok {text : List Char} {rs : List Row} (h : textRows text = .ok rs) :
    ∀ r ∈ rs, ∃ ts, line ts = .ok r.line := by
  unfold textRows at h
  split at h
  · cases h
  · intro r hr
    obtain ⟨k, l, ts, -, -, hline⟩ := rows_ok h r hr
    exact ⟨ts, hline⟩

theorem textRows_inRange {text : List Char} {rs : List Row} (h : textRows text = .ok rs) :
    ∀ r ∈ rs, r.line.InRange := by
  intro r hr
  obtain ⟨ts, hline⟩ := textRows_ok h r hr
  exact line_ok hline

theorem parse_ok {text : String} {name : Option String} {tree : List Statement}
    (h : parse text name = .ok tree) :
    ∃ rs, textRows text.toList = .ok rs ∧ tree = group rs ∧
      (Forest.nodes tree).map Line.ofStatement = rs.map Row.line := by
  unfold parse at h
  rw [tree_eq] at h
  cases hr : textRows text.toList with
  | error e => simp [hr, Except.map] at h
  | ok rs =>
    simp only [hr, Except.map, Except.ok.injEq] at h
    subst h
    exact ⟨rs, rfl, rfl, lines_nodes_group (textRows_inRange hr)⟩

theorem parse_inRange {text : String} {name : Option String} {tree : List Statement}
    (h : parse text name = .ok tree) : Forest.Each Statement.InRange tree := by
  obtain ⟨rs, hrs, -, hl⟩ := parse_ok h
  intro s hs
  have hmem : Line.ofStatement s ∈ rs.map Row.line := hl ▸ List.mem_map_of_mem hs
  obtain ⟨r, hr, hline⟩ := List.mem_map.mp hmem
  have hin := textRows_inRange hrs r hr
  rw [hline] at hin
  cases s with
  | label | loop => exact hin
  | _ => exact hin.1

/-- Two loops and a label, nested by spaces, tabs and a width that no block has. -/
def sampleText : String := "LOOP 2:\n LABEL a:\n\tLOOP 3:\n\t\tPLAY c4\n    WAIT 1 t"

def sampleTree : List Statement :=
  [.loop (some 2)
    [.label "a"
      [.loop (some 3) [.play { chords := [⟨60, .raw⟩], pos := ⟨4, 3⟩ }] ⟨3, 2⟩,
        .wait ⟨1, .ticks, ⟨5, 5⟩⟩]
      ⟨2, 8⟩]
    ⟨1, 1⟩]

set_option maxRecDepth 4000 in
theorem parse_sample : parse sampleText none = .ok sampleTree := by
  cbv

/-- **Indentation decides the tree.** A text that reads gives the tree of the parents of its rows:
the body of a block is made of its children in order, and walking the tree in program order meets
every row once, in the order of the text. -/
theorem parse_eq_forest {text : String} {name : Option String} {tree : List Statement}
    (h : parse text name = .ok tree) :
    ∃ rs, textRows text.toList = .ok rs ∧ tree = forest rs ∧
      (Forest.nodes tree).map Line.ofStatement = rs.map Row.line := by
  obtain ⟨rs, hrs, htree, hl⟩ := parse_ok h
  exact ⟨rs, hrs, by rw [htree, group_eq_forest], hl⟩

theorem parse_eq_forest_sample : parse sampleText none = .ok sampleTree ∧
    ∃ rs, textRows sampleText.toList = .ok rs ∧ sampleTree = forest rs ∧
      (Forest.nodes sampleTree).map Line.ofStatement = rs.map Row.line :=
  ⟨parse_sample, parse_eq_forest parse_sample⟩

end Ostinato.Source
