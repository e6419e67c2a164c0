import Ostinato.Proofs.Printing
import Ostinato.Proofs.Safety
import Ostinato.Text.Split

/-!
# Listings as source text

A listing has one line for each label and each instruction. `reassembled` turns it back into source
text, every line flush left: labels get their keyword, and instructions lose their index and the arrow
of a jump. `Program.itemsFrom` is what a listing shows, and `parse_reassembled` says that the text reads
as just that, one statement for each line.
-/

namespace Ostinato

/-! ## From a listing to source text -/

/-- A line up to the arrow that shows where a jump goes. -/
def beforeArrow : List Char → List Char
  | [] => []
  | c :: cs => if "  -> ".toList.isPrefixOf (c :: cs) then [] else c :: beforeArrow cs

/-- A line of a listing as a line of source text. The line of an instruction starts with its index, and
two blanks follow. -/
def sourceLine (line : List Char) : List Char :=
  match line.dropWhile (· == ' ') with
  | [] => []
  | c :: cs =>
    if c.isDigit then beforeArrow (((c :: cs).dropWhile Char.isDigit).drop 2)
    else "LABEL ".toList ++ c :: cs

def reassembled (listing : String) : String :=
  String.ofList (['\n'].intercalate ((Text.splitAt '\n' listing.toList).map sourceLine))

section
variable {cs : List Char}

theorem not_isPrefixOf_arrow {c : Char} (h : '>' ∉ c :: cs) (rest : List Char) :
    "  -> ".toList.isPrefixOf (c :: (cs ++ "  -> ".toList ++ rest)) = false := by
  -- The arrowhead would be one of the first characters, or a blank or the shaft of the arrow itself.
  rcases cs with _ | ⟨d, _ | ⟨e, _ | ⟨f, cs⟩⟩⟩ <;> simp_all [List.isPrefixOf]

theorem beforeArrow_append (h : '>' ∉ cs) (rest : List Char) :
    beforeArrow (cs ++ "  -> ".toList ++ rest) = cs := by
  induction cs with
  | nil => rfl
  | cons c cs ih =>
    rw [List.cons_append, List.cons_append, beforeArrow, not_isPrefixOf_arrow h,
      if_neg Bool.false_ne_true, ih fun hmem => h (List.mem_cons_of_mem c hmem)]

theorem beforeArrow_eq (h : '>' ∉ cs) : beforeArrow cs = cs := by
  induction cs with
  | nil => rfl
  | cons c cs ih =>
    have hnot : "  -> ".toList.isPrefixOf (c :: cs) = false := by
      rw [Bool.eq_false_iff]
      intro hpre
      exact h ((List.isPrefixOf_iff_prefix.mp hpre).mem (by decide))
    rw [beforeArrow, hnot, if_neg Bool.false_ne_true,
      ih fun hmem => h (List.mem_cons_of_mem c hmem)]

end

theorem dropWhile_blanks (n : Nat) {cs : List Char} (h : Source.Stops (· == ' ') cs) :
    (List.replicate n ' ' ++ cs).dropWhile (· == ' ') = cs := by
  rw [List.dropWhile_append_of_pos (by simp [List.mem_replicate]), h.dropWhile]

theorem sourceLine_code (i : Nat) (text : String) :
    sourceLine (Program.indexText i ++ "  " ++ text).toList = beforeArrow text.toList := by
  have hdigits := Text.isDigit_toDigits i
  have htext : (Program.indexText i ++ "  " ++ text).toList =
      List.replicate (5 - (Nat.toDigits 10 i).length) ' ' ++
        (Nat.toDigits 10 i ++ (' ' :: ' ' :: text.toList)) := by
    simp [Program.indexText, Nat.toList_repr]
  have hindex : (Nat.toDigits 10 i ++ (' ' :: ' ' :: text.toList)).dropWhile Char.isDigit =
      ' ' :: ' ' :: text.toList := by
    rw [List.dropWhile_append_of_pos hdigits]
    rfl
  cases hd : Nat.toDigits 10 i with
  | nil => exact absurd hd Nat.toDigits_ne_nil
  | cons d ds =>
    have hdigit := hdigits d (by simp [hd])
    rw [hd] at htext hindex
    rw [sourceLine, htext, dropWhile_blanks]
    · rw [List.cons_append] at hindex ⊢
      simp only [hdigit, if_true, hindex, List.drop_succ_cons, List.drop_zero]
    · show (d == ' ') = false
      rw [beq_eq_false_iff_ne]
      rintro rfl
      cases hdigit

theorem sourceLine_label (n : Nat) {name : String} (h : Source.isIdentifier name = true) :
    sourceLine (String.ofList (List.replicate n ' ') ++ name ++ ":").toList =
      "LABEL ".toList ++ name.toList ++ [':'] := by
  have htext : (String.ofList (List.replicate n ' ') ++ name ++ ":").toList =
      List.replicate n ' ' ++ (name.toList ++ [':']) := by
    simp
  unfold Source.isIdentifier at h
  cases hc : name.toList with
  | nil => simp [hc] at h
  | cons c cs =>
    simp only [hc, Bool.and_eq_true] at h
    have hrange := Source.isWordStart_range h.1
    have hdigit : c.isDigit = false := by
      rw [Bool.eq_false_iff, ne_eq, Text.isDigit_iff]
      omega
    rw [sourceLine, htext, hc, dropWhile_blanks]
    · simp [hdigit]
    · show (c == ' ') = false
      rw [beq_eq_false_iff_ne]
      rintro rfl
      exact absurd hrange.1 (by decide)

/-! ## Lines -/

theorem splitAt_append {l : List Char} (h : '\n' ∉ l) (rest : List Char) :
    Text.splitAt '\n' (l ++ '\n' :: rest) = l :: Text.splitAt '\n' rest := by
  induction l with
  | nil => rfl
  | cons c l ih =>
    simp only [List.mem_cons, not_or] at h
    have hc : (c == '\n') = false := beq_eq_false_iff_ne.mpr (Ne.symm h.1)
    rw [List.cons_append, Text.splitAt, hc, ih h.2]
    rfl

theorem splitAt_eq {l : List Char} (h : '\n' ∉ l) : Text.splitAt '\n' l = [l] := by
  induction l with
  | nil => rfl
  | cons c l ih =>
    simp only [List.mem_cons, not_or] at h
    have hc : (c == '\n') = false := beq_eq_false_iff_ne.mpr (Ne.symm h.1)
    rw [Text.splitAt, hc, ih h.2]
    rfl

theorem splitAt_intercalate {ls : List (List Char)} (hne : ls ≠ []) (h : ∀ l ∈ ls, '\n' ∉ l) :
    Text.splitAt '\n' (['\n'].intercalate ls) = ls := by
  induction ls with
  | nil => exact absurd rfl hne
  | cons l ls ih =>
    obtain ⟨hl, hls⟩ := List.forall_mem_cons.mp h
    cases ls with
    | nil => rw [List.intercalate_singleton, splitAt_eq hl]
    | cons l' ls =>
      rw [List.intercalate_cons_cons, List.append_assoc, List.singleton_append, splitAt_append hl,
        ih (by simp) hls]

theorem mem_intercalate {c : Char} {ls : List (List Char)} (h : c ∈ ['\n'].intercalate ls) :
    c = '\n' ∨ ∃ l ∈ ls, c ∈ l := by
  induction ls with
  | nil => cases h
  | cons l ls ih =>
    cases ls with
    | nil => exact .inr ⟨l, by simp, by rwa [List.intercalate_singleton] at h⟩
    | cons l' ls =>
      rw [List.intercalate_cons_cons, List.append_assoc, List.mem_append, List.singleton_append,
        List.mem_cons] at h
      rcases h with h | h | h
      · exact .inr ⟨l, by simp, h⟩
      · exact .inl h
      · exact (ih h).imp_right fun ⟨m, hm, hc⟩ => ⟨m, List.mem_cons_of_mem l hm, hc⟩

/-- Reading finds these lines as well, if none is empty. -/
theorem lines_intercalate {ls : List (List Char)} (hne : ∀ l ∈ ls, l ≠ [])
    (h : ∀ l ∈ ls, ∀ c ∈ l, Text.isLineBreak c = false) :
    Text.lines (['\n'].intercalate ls) = ls := by
  induction ls with
  | nil => rfl
  | cons l ls ih =>
    obtain ⟨hl, hls⟩ := List.forall_mem_cons.mp h
    obtain ⟨hlne, hlsne⟩ := List.forall_mem_cons.mp hne
    cases ls with
    | nil => rw [List.intercalate_singleton, Text.lines_last hl, if_neg hlne]
    | cons l' ls =>
      rw [List.intercalate_cons_cons, List.append_assoc, Text.lines_cut hl (.single rfl),
        ih hlsne hls]

/-! ## What a listing shows -/

/-- A line of a listing: a label, or an instruction with its index. -/
inductive Item where
  | label (s : Span)
  | code (i : Nat) (s : Statement)

namespace Item

def text : Item → Except PitchFault String
  | .label s => .ok (String.ofList (List.replicate (2 * s.depth) ' ') ++ s.name ++ ":")
  | .code i s => (Program.instructionText s).map (Program.indexText i ++ "  " ++ ·)

def line : Item → Int → Source.Line
  | .label s, n => .label s.name ⟨n, 7⟩
  | .code _ s, n => Source.plainAt s.untargeted n

def Printable : Item → Prop
  | .label s => Source.isIdentifier s.name = true
  | .code _ s => s.Printable

/-- The line `l` of a listing shows an item and can be turned into source text that says it. -/
structure Shows (e : Item) (l : String) : Prop where
  text : e.text = .ok l
  oneLine : '\n' ∉ l.toList
  reads : Source.Says (sourceLine l.toList) e.line

theorem shows_label {s : Span} (h : Source.isIdentifier s.name = true) :
    (Item.label s).Shows (String.ofList (List.replicate (2 * s.depth) ' ') ++ s.name ++ ":") := by
  have hprinted := (Source.says_label h).printed
  have hname : '\n' ∉ s.name.toList := fun hmem =>
    Source.not_mem_of_printed hprinted (c := '\n') (by decide) (by simp [hmem])
  refine ⟨rfl, ?_, ?_⟩
  · simp [List.mem_replicate, hname]
  · rw [sourceLine_label _ h]
    exact Source.says_label h

theorem shows_code {s : Statement} (h : s.Printable) (i : Nat) :
    ∃ text, Program.instructionText s = .ok text ∧
      (Item.code i s).Shows (Program.indexText i ++ "  " ++ text) := by
  obtain ⟨text, cs, rest, htext, hcs, hrest, hreads⟩ := Source.text_reads h
  have hprinted := hreads.printed
  have hdigits : ∀ n, '\n' ∉ Nat.toDigits 10 n := fun n hmem =>
    absurd (Text.isDigit_toDigits n '\n' hmem) (by decide)
  have hbefore : beforeArrow text.toList = cs := by
    have harrow : '>' ∉ cs := Source.not_mem_of_printed hprinted (by decide)
    rw [hcs]
    rcases hrest with rfl | ⟨t, rfl⟩
    · rw [List.append_nil, beforeArrow_eq harrow]
    · rw [← List.append_assoc, beforeArrow_append harrow]
  refine ⟨text, htext, by rw [Item.text, htext]; rfl, ?_, ?_⟩
  · have hline : '\n' ∉ cs := Source.not_mem_of_printed hprinted (by decide)
    have htail : '\n' ∉ rest := by
      rcases hrest with rfl | ⟨t, rfl⟩ <;> simp [hdigits]
    simp [Program.indexText, hcs, hline, htail, Nat.toList_repr, hdigits, List.mem_replicate]
  · rw [sourceLine_code, hbefore]
    exact hreads

end Item

/-- The spans that start at an index. -/
def Span.startingAt (spans : List Span) (i : Nat) : List Span :=
  spans.filter fun s => s.start == (i : Int)

namespace Program

/-- The items of the instructions from index `i` on, with the labels before each. -/
def itemsFrom (p : Program) (i : Nat) : List Statement → List Item
  | [] => (Span.startingAt p.spans i).map .label
  | s :: rest => (Span.startingAt p.spans i).map .label ++ .code i s :: p.itemsFrom (i + 1) rest

section
variable {p : Program} (hspans : ∀ s ∈ p.spans, Source.isIdentifier s.name = true)
include hspans

theorem shows_labelLines (i : Nat) :
    List.Forall₂ Item.Shows ((Span.startingAt p.spans i).map .label) (p.labelLines i) := by
  rw [labelLines, Span.startingAt, List.forall₂_map_left_iff, List.forall₂_map_right_iff, List.forall₂_same]
  exact fun s hs => Item.shows_label (hspans s (List.mem_of_mem_filter hs))

theorem listingFrom_ok {code : List Statement} (hcode : ∀ s ∈ code, s.Printable) (i : Nat) :
    ∃ lines, p.listingFrom i code = .ok lines ∧
      List.Forall₂ Item.Shows (p.itemsFrom i code) lines := by
  induction code generalizing i with
  | nil => exact ⟨_, rfl, shows_labelLines hspans i⟩
  | cons s rest ih =>
    obtain ⟨hs, hrest⟩ := List.forall_mem_cons.mp hcode
    obtain ⟨text, htext, hshows⟩ := Item.shows_code hs i
    obtain ⟨lines, hlines, hall⟩ := ih hrest (i + 1)
    refine ⟨_, ?_, List.rel_append (shows_labelLines hspans i) (.cons hshows hall)⟩
    rw [listingFrom, htext, hlines]
    rfl

end

end Program

/-! ## Reading the lines -/

namespace Item

open Source (Row rows group)

/-- The rows of items whose first line has the number `n`. -/
def rows (n : Int) : List Item → List Row
  | [] => []
  | e :: es => ⟨0, e.line n⟩ :: rows (n + 1) es

/-- The tree of items: nothing stands in a label. -/
def tree (n : Int) : List Item → List Statement
  | [] => []
  | e :: es => (e.line n).statement [] :: tree (n + 1) es

theorem group_rows (n : Int) (es : List Item) : group (rows n es) = tree n es := by
  induction es generalizing n with
  | nil => rw [rows, Source.group_nil, tree]
  | cons e es ih =>
    have hflush : (rows (n + 1) es).takeWhile (0 < ·.width) = [] ∧
        (rows (n + 1) es).dropWhile (0 < ·.width) = rows (n + 1) es := by
      cases es <;> simp [rows]
    rw [rows, tree]
    cases e with
    | label s => rw [Source.group_block rfl, hflush.1, hflush.2, Source.group_nil, ih]
    | code i s => rw [Source.group_plain rfl, ih]

theorem rows_eq {es : List Item} {ls : List String} (h : List.Forall₂ Shows es ls) (n : Int) :
    Source.rows n (ls.map fun l => sourceLine l.toList) = .ok (rows n es) := by
  induction h generalizing n with
  | nil => rfl
  | cons he _ ih =>
    rw [List.map_cons, Source.rows, he.reads.readLine]
    simp only [ih, he.reads.indent]
    rfl

end Item

theorem shows_of_mem {es : List Item} {ls : List String} (h : List.Forall₂ Item.Shows es ls) :
    ∀ l ∈ ls, ∃ e : Item, e.Shows l := by
  induction h with
  | nil => simp
  | cons he _ ih => exact List.forall_mem_cons.mpr ⟨⟨_, he⟩, ih⟩

section
variable {es : List Item} {ls : List String} (h : List.Forall₂ Item.Shows es ls)
include h

theorem toList_reassembled : (reassembled (String.intercalate "\n" ls)).toList =
    ['\n'].intercalate (ls.map fun l => sourceLine l.toList) := by
  cases ls with
  | nil => rfl
  | cons l ls =>
    have hlines : ∀ cs ∈ (l :: ls).map String.toList, '\n' ∉ cs := by
      intro cs hcs
      obtain ⟨l', hl', rfl⟩ := List.mem_map.mp hcs
      obtain ⟨e, he⟩ := shows_of_mem h l' hl'
      exact he.oneLine
    have htext : (String.intercalate "\n" (l :: ls)).toList =
        ['\n'].intercalate ((l :: ls).map String.toList) := String.toList_intercalate
    rw [reassembled, String.toList_ofList, htext, splitAt_intercalate (by simp) hlines, List.map_map]
    rfl

theorem printed_of_mem {cs : List Char} (hcs : cs ∈ ls.map fun l => sourceLine l.toList) :
    cs ≠ [] ∧ ∀ c ∈ cs, Source.isPrinted c = true := by
  obtain ⟨l, hl, rfl⟩ := List.mem_map.mp hcs
  obtain ⟨e, he⟩ := shows_of_mem h l hl
  exact ⟨he.reads.ne_nil, he.reads.printed⟩

/-- A listing reads as the tree of what it shows. -/
theorem parse_reassembled (name : Option String) :
    Source.parse (reassembled (String.intercalate "\n" ls)) name = .ok (Item.tree 1 es) := by
  have hslash : '/' ∉ (reassembled (String.intercalate "\n" ls)).toList := by
    rw [toList_reassembled h]
    intro hmem
    rcases mem_intercalate hmem with hmem | ⟨cs, hcs, hmem⟩
    · cases hmem
    · exact Source.not_mem_of_printed (printed_of_mem h hcs).2 (by decide) hmem
  have hlines : Text.lines (reassembled (String.intercalate "\n" ls)).toList =
      ls.map fun l => sourceLine l.toList := by
    rw [toList_reassembled h]
    refine lines_intercalate (fun cs hcs => (printed_of_mem h hcs).1) fun cs hcs c hc => ?_
    exact Source.isLineBreak_of_isPrinted ((printed_of_mem h hcs).2 c hc)
  have hrows : Source.textRows (reassembled (String.intercalate "\n" ls)).toList =
      .ok (Item.rows 1 es) := by
    rw [Source.textRows, Source.blankComments_eq hslash, Source.opening?,
      Source.openingFrom?_eq_none hslash, hlines]
    exact Item.rows_eq h 1
  rw [Source.parse, Source.tree_eq, hrows]
  simp only [Except.map, Item.group_rows]

end

end Ostinato
