import Ostinato.Proofs.Blanking

/-!
# Remarks are inert

A remark is a comment that runs to the end of its line. Block comments are blanked before the text is
cut into lines, so a remark does nothing as long as no block comment is left open in it: the
characters of its line are then those of the line without it (`parse_remark`). A block comment that
is opened in a remark is a block comment all the same (`parse_remark_open`).
-/

namespace Ostinato.Source

/-! ## Remarks in a line -/

/-- A blank and what looks like a comment to the end of the line. -/
def IsRemark (x : List Char) : Prop := ∃ r, x = ' ' :: '#' :: r ∨ x = ' ' :: '/' :: '/' :: r

section
variable {p : Char → Bool} {c : Char} {cs r : List Char} {line column : Int}

theorem run_append_blank (hp : p ' ' = false) (cs r : List Char) :
    run p (cs ++ ' ' :: r) = run p cs := by
  have hblank : ¬ p ' ' = true := by simp [hp]
  induction cs with
  | nil => rw [run, List.nil_append, List.takeWhile_cons_of_neg hblank, run, List.takeWhile_nil]
  | cons c cs ih =>
    unfold run at ih ⊢
    rw [List.cons_append, List.takeWhile_cons, List.takeWhile_cons]
    split
    · rw [List.length_cons, ih, List.length_cons]
    · rfl

theorem dropWhile_append_blank (hp : p ' ' = false) (cs r : List Char) :
    (cs ++ ' ' :: r).dropWhile p = cs.dropWhile p ++ ' ' :: r := by
  rw [← drop_run, run_append_blank hp, List.drop_append_of_le_length (run_le p cs), drop_run]

theorem octaveTail_append_blank (cs r : List Char) :
    octaveTail (cs ++ ' ' :: r) = octaveTail cs := by
  cases cs with
  | nil => rfl
  | cons c cs =>
    by_cases hc : c = '-'
    · subst hc
      rw [List.cons_append, octaveTail_cons, run_append_blank (by decide), octaveTail_cons]
    · rw [List.cons_append, octaveTail_of_ne hc, octaveTail_of_ne hc]

theorem wordTail_append_blank (cs r : List Char) : wordTail (cs ++ ' ' :: r) = wordTail cs := by
  have hp : isWordChar ' ' = false := by decide
  rw [wordTail, run_append_blank hp, dropWhile_append_blank hp, octaveTail_append_blank, wordTail]

/-- A blank behind the text changes no lexeme but a comment, which takes it in. -/
theorem lexeme?_append_blank (hspace : isSpace c = false) (cs r : List Char) :
    lexeme? c (cs ++ ' ' :: r) = lexeme? c cs ∨
      lexeme? c cs = some (.comment, run (· != '\n') cs) ∧
        lexeme? c (cs ++ ' ' :: r) = some (.comment, run (· != '\n') (cs ++ ' ' :: r)) := by
  have hhead : ((cs ++ ' ' :: r).head? == some '/') = (cs.head? == some '/') := by
    cases cs <;> rfl
  have hdigit : Text.isDigit ' ' = false := by decide
  unfold lexeme?
  rw [hhead, hspace, run_append_blank hdigit, wordTail_append_blank]
  simp only [Bool.false_eq_true, if_false]
  by_cases hhash : (c == '#') = true
  · simp only [hhash, if_true]
    exact .inr ⟨trivial, trivial⟩
  · by_cases hslash : (c == '/') = true
    · by_cases hnext : (cs.head? == some '/') = true
      · simp only [hhash, hslash, hnext, if_true, Bool.false_eq_true, if_false]
        exact .inr ⟨trivial, trivial⟩
      · simp only [hhash, hslash, hnext, if_true, Bool.false_eq_true, if_false]
        exact .inl trivial
    · simp only [hhash, hslash, Bool.false_eq_true, if_false]
      exact .inl trivial

theorem tokensFrom_blanks (hspace : isSpace c = true) (line column : Int) (cs : List Char) :
    tokensFrom line column (c :: cs) =
      tokensFrom line (column + 1 + run isSpace cs) (cs.drop (run isSpace cs)) := by
  have hlex : lexeme? c cs = some (.blank, run isSpace cs) := if_pos hspace
  rw [tokensFrom, hlex]
  dsimp only
  cases tokensFrom line (column + 1 + run isSpace cs) (cs.drop (run isSpace cs)) <;> rfl

theorem tokensFrom_space (hspace : isSpace c = true) (line column : Int) (cs : List Char) :
    tokensFrom line column (c :: cs) = tokensFrom line (column + 1) cs := by
  rw [tokensFrom_blanks hspace]
  cases cs with
  | nil => simp [run]
  | cons d ds =>
    by_cases hd : isSpace d = true
    · have hrun : run isSpace (d :: ds) = run isSpace ds + 1 := by
        rw [run, List.takeWhile_cons_of_pos hd, List.length_cons, run]
      rw [tokensFrom_blanks hd, hrun, List.drop_succ_cons]
      congr 1
      push_cast
      omega
    · have hrun : run isSpace (d :: ds) = 0 := by
        rw [run, List.takeWhile_cons_of_neg hd, List.length_nil]
      rw [hrun]
      simp

theorem tokensFrom_comment (hlex : lexeme? c cs = some (.comment, run (· != '\n') cs))
    (hbreaks : '\n' ∉ cs) (line column : Int) : tokensFrom line column (c :: cs) = .ok [] := by
  have hall : cs.takeWhile (· != '\n') = cs :=
    List.takeWhile_eq_self_iff.mpr fun d hd => bne_iff_ne.mpr fun he => hbreaks (he ▸ hd)
  rw [tokensFrom, hlex, run, hall]
  simp only [List.drop_length, tokensFrom]

theorem tokensFrom_remark {x : List Char} (hx : IsRemark x) (hbreaks : '\n' ∉ x)
    (line column : Int) : tokensFrom line column x = .ok [] := by
  obtain ⟨r, rfl | rfl⟩ := hx
  · rw [tokensFrom_space rfl]
    exact tokensFrom_comment rfl (fun h => hbreaks (by simp [h])) _ _
  · rw [tokensFrom_space rfl]
    exact tokensFrom_comment rfl (fun h => hbreaks (by simpa using h)) _ _

/-- A remark at the end of a line adds no token and takes none away. -/
theorem tokensFrom_append_remark {x : List Char} (hx : IsRemark x) (hbreaks : '\n' ∉ cs ++ x)
    (line column : Int) : tokensFrom line column (cs ++ x) = tokensFrom line column cs := by
  obtain ⟨y, rfl⟩ : ∃ y, x = ' ' :: y := by
    obtain ⟨r, rfl | rfl⟩ := hx <;> exact ⟨_, rfl⟩
  induction hn : cs.length using Nat.strong_induction_on generalizing cs column with
  | _ n ih =>
    cases cs with
    | nil =>
      rw [tokensFrom]
      exact tokensFrom_remark hx hbreaks line column
    | cons c cs =>
      rw [List.cons_append, List.mem_cons, not_or] at hbreaks
      by_cases hspace : isSpace c = true
      · rw [List.cons_append, tokensFrom_space hspace, tokensFrom_space hspace]
        exact ih cs.length (by simp at hn; omega) _ hbreaks.2 rfl
      · rcases lexeme?_append_blank (Bool.eq_false_iff.mpr hspace) cs y with hlex | ⟨hold, hnew⟩
        · cases hc : lexeme? c cs with
          | none => rw [List.cons_append, tokensFrom, tokensFrom, hlex, hc]
          | some r =>
            obtain ⟨kind, m⟩ := r
            have hm := lexeme?_le hc
            have hdrop : '\n' ∉ cs.drop m ++ ' ' :: y := fun h => hbreaks.2 <| by
              rw [List.mem_append] at h ⊢
              exact h.imp_left List.mem_of_mem_drop
            rw [List.cons_append, tokensFrom, tokensFrom, hlex, hc]
            simp only [List.drop_append_of_le_length hm, List.take_append_of_le_length hm]
            rw [ih (cs.drop m).length (by simp at hn ⊢; omega) _ hdrop rfl]
        · rw [List.cons_append, tokensFrom_comment hnew hbreaks.2, tokensFrom_comment hold]
          exact fun h => hbreaks.2 (List.mem_append_left _ h)

theorem tokensFrom_spaces (h : ∀ c ∈ cs, isSpace c = true) (line column : Int) :
    tokensFrom line column cs = .ok [] := by
  induction cs generalizing column with
  | nil => rw [tokensFrom]
  | cons c cs ih =>
    obtain ⟨hc, hcs⟩ := List.forall_mem_cons.mp h
    rw [tokensFrom_space hc, ih hcs]

/-- The indentation of a line ends in front of its first character that is no blank. -/
theorem widthFrom_append (h : ∃ c ∈ cs, isSpace c = false) (width : Nat) (x : List Char) :
    widthFrom width (cs ++ x) = widthFrom width cs := by
  induction cs generalizing width with
  | nil => simp at h
  | cons c cs ih =>
    have hrest : isSpace c = true → ∃ d ∈ cs, isSpace d = false := fun hc => by
      obtain ⟨d, hd, hspace⟩ := h
      rcases List.mem_cons.mp hd with rfl | hd
      · rw [hc] at hspace
        cases hspace
      · exact ⟨d, hd, hspace⟩
    by_cases hblank : c = ' '
    · subst hblank
      exact ih (hrest rfl) _
    · by_cases htab : c = '\t'
      · subst htab
        exact ih (hrest rfl) _
      · have hstop : ∀ rest, widthFrom width (c :: rest) = width := by
          intro rest
          unfold widthFrom
          split
          · rename_i he
            exact absurd (List.cons.inj he).1 hblank
          · rename_i he
            exact absurd (List.cons.inj he).1 htab
          · rfl
        rw [List.cons_append, hstop, hstop]

end

/-! ## Remarks in rows -/

section
variable {l x : List Char} {first last : List (List Char)}

theorem readLine_append_remark (hx : IsRemark x) (hbreaks : '\n' ∉ l ++ x) (number : Int) :
    readLine number (l ++ x) = readLine number l := by
  unfold readLine tokens
  rw [tokensFrom_append_remark hx hbreaks]

theorem indent_append {number : Int} {s : Line} (h : readLine number l = .ok (some s))
    (x : List Char) : indent (l ++ x) = indent l := by
  refine widthFrom_append ?_ 0 x
  by_contra hspaces
  push Not at hspaces
  have hnone : tokens number l = .ok [] :=
    tokensFrom_spaces (fun c hc => by simpa using hspaces c hc) number 1
  simp [readLine, hnone] at h

theorem rows_append_remark (hx : IsRemark x) (hbreaks : '\n' ∉ l ++ x) (number : Int) :
    rows number (first ++ (l ++ x) :: last) = rows number (first ++ l :: last) := by
  induction first generalizing number with
  | nil =>
    simp only [List.nil_append, rows, readLine_append_remark hx hbreaks]
    cases h : readLine number l with
    | error e => rfl
    | ok r =>
      cases r with
      | none => rfl
      | some s => simp only [indent_append h]
  | cons text first ih => simp only [List.cons_append, rows, ih]

theorem rows_remark (hx : IsRemark x) (hbreaks : '\n' ∉ x) (number : Int) :
    rows number (first ++ [x]) = rows number first := by
  induction first generalizing number with
  | nil =>
    have hnone : readLine number x = .ok none := by
      rw [readLine, tokens, tokensFrom_remark hx hbreaks]
    simp only [List.nil_append, rows, hnone]
  | cons text first ih => simp only [List.cons_append, rows, ih]

end

/-! ## Ends of blanked lines -/

section
variable {a b : List Char}

theorem lineEnd_blankComments (h : Text.LineEnd a b) :
    Text.LineEnd (blankComments a) (blankComments b) where
  atBreak c hc := by
    cases b with
    | nil => simp [blankComments] at hc
    | cons d b =>
      have hd := h.atBreak d rfl
      have hslash : d ≠ '/' := by
        rintro rfl
        exact absurd hd (by decide)
      rw [blankComments_cons hslash] at hc
      exact Option.some.inj hc ▸ hd
  whole hlast hfeed := by
    have hreverse := List.rel_reverse (blankComments_blanked a)
    rw [List.getLast?_eq_head?_reverse] at hlast
    refine h.whole ?_ (Blanked.head?_eq (blankComments_blanked b) (by decide) hfeed)
    rw [List.getLast?_eq_head?_reverse]
    exact Blanked.head?_eq hreverse (by decide) hlast

end

/-! ## Remarks in a text -/

/-- A remark starts with one of these. -/
def IsMark (mark : List Char) : Prop := mark = " // ".toList ∨ mark = " # ".toList

section
variable {mark t : List Char}

theorem IsMark.isRemark (h : IsMark mark) (t : List Char) : IsRemark (mark ++ t) := by
  rcases h with rfl | rfl
  · exact ⟨' ' :: t, .inr rfl⟩
  · exact ⟨' ' :: t, .inl rfl⟩

theorem IsMark.unbroken (h : IsMark mark) : Text.Unbroken mark := by
  rcases h with rfl | rfl <;> simp [Text.Unbroken, Text.isLineBreak]

theorem IsMark.blankComments_append (h : IsMark mark) (t : List Char) :
    blankComments (mark ++ t) = mark ++ blankComments t := by
  rcases h with rfl | rfl
  · show blankComments (' ' :: '/' :: '/' :: ' ' :: t) = _
    rw [blankComments_cons (by decide), blankComments, blankComments, blankComments_cons (by decide)]
    · rfl
    · simp
    · simp
  · show blankComments (' ' :: '#' :: ' ' :: t) = _
    rw [blankComments_cons (by decide), blankComments_cons (by decide),
      blankComments_cons (by decide)]
    rfl

theorem IsMark.closed_iff (h : IsMark mark) : Closed (mark ++ t) ↔ Closed t := by
  rw [Source.closed_iff, Source.closed_iff, h.blankComments_append]
  rcases h with rfl | rfl <;> simp [List.infix_cons_iff, List.cons_prefix_cons]

theorem IsMark.head? (h : IsMark mark) (t : List Char) : (mark ++ t).head? ≠ some '*' := by
  rcases h with rfl | rfl <;> simp

theorem unbroken_blankComments (ht : Text.Unbroken t) : Text.Unbroken (blankComments t) := by
  have h := blankComments_blanked t
  generalize blankComments t = bs at h
  induction h with
  | nil => exact ht
  | cons hbc _ ih =>
    obtain ⟨hc, hcs⟩ := List.forall_mem_cons.mp ht
    refine List.forall_mem_cons.mpr ⟨?_, ih hcs⟩
    rcases hbc with rfl | ⟨rfl, -⟩
    · exact hc
    · decide

variable {before after : List Char}

theorem textRows_remark {rs : List Row} (hmark : IsMark mark) (hend : Text.LineEnd before after)
    (ht : Text.Unbroken t) (hbefore : Closed before) (hclosed : Closed t)
    (h : textRows (before ++ after) = .ok rs) :
    textRows (before ++ (mark ++ t) ++ after) = .ok rs := by
  have hafter : after.head? ≠ some '*' := fun hstar =>
    absurd (hend.atBreak '*' hstar) (by decide)
  have hopen : Closed (before ++ after) := by
    unfold textRows at h
    split at h
    · cases h
    · assumption
  have hremark := hmark.closed_iff.mpr hclosed
  have hline := hbefore.append hremark (hmark.head? t)
  have hnew : blankComments (before ++ (mark ++ t) ++ after) =
      blankComments before ++ (mark ++ blankComments t) ++ blankComments after := by
    rw [blankComments_append hline hafter, blankComments_append hbefore (hmark.head? t),
      hmark.blankComments_append]
  have hrows : rows 1 (Text.lines (blankComments (before ++ after))) = .ok rs := by
    rw [textRows, show opening? (blankComments (before ++ after)) = none from hopen] at h
    exact h
  have hunbroken : Text.Unbroken (mark ++ blankComments t) :=
    List.forall_mem_append.mpr ⟨hmark.unbroken, unbroken_blankComments ht⟩
  have hx := hmark.isRemark (blankComments t)
  obtain ⟨first, l, last, hlines, hold⟩ := Text.lines_insert (lineEnd_blankComments hend) hunbroken
    (by rcases hmark with rfl | rfl <;> simp)
  rw [textRows, show opening? (blankComments (before ++ (mark ++ t) ++ after)) = none from
    hline.append (hbefore.right hopen hafter) hafter, hnew, hlines]
  rw [blankComments_append hbefore hafter] at hrows
  have hbreaks : '\n' ∉ l ++ (mark ++ blankComments t) := by
    have hstand := Text.lines_stand (k := first.length) (l := l ++ (mark ++ blankComments t))
      (by rw [hlines, List.getElem?_append_right le_rfl, Nat.sub_self, List.getElem?_cons_zero])
    exact fun hfeed => absurd (hstand.1 _ hfeed) (by decide)
  rcases hold with hold | ⟨rfl, rfl, hold⟩
  · rw [hold] at hrows
    exact (rows_append_remark hx hbreaks 1).trans hrows
  · rw [hold] at hrows
    exact (rows_remark hx hbreaks 1).trans hrows

end

/-- **Remarks are inert** as far as no block comment is left open in them. A text that reads gives the
same tree when ` // ` or ` # ` and some further text are put at the end of any of its lines, if that
end is outside the block comments and the further text closes every block comment that it opens. -/
theorem parse_remark {before mark t after : String} {name : Option String} {tree : List Statement}
    (hmark : mark = " // " ∨ mark = " # ") (hend : Text.LineEnd before.toList after.toList)
    (ht : Text.Unbroken t.toList) (hbefore : Closed before.toList) (hclosed : Closed t.toList)
    (h : parse (before ++ after) name = .ok tree) :
    parse (before ++ (mark ++ t) ++ after) name = .ok tree := by
  obtain ⟨rs, hrows, rfl, -⟩ := parse_ok h
  rw [String.toList_append] at hrows
  have hnew := textRows_remark (hmark.imp (congrArg String.toList) (congrArg String.toList)) hend ht
    hbefore hclosed hrows
  rw [parse, String.toList_append, String.toList_append, String.toList_append, tree_eq, hnew]
  rfl

/-- A block comment in a remark at the end of a first line. -/
theorem parse_remark_sample :
    parse ("WAIT 1 t" ++ "\nWAIT 2 t") none =
        .ok [.wait ⟨1, .ticks, ⟨1, 1⟩⟩, .wait ⟨2, .ticks, ⟨2, 1⟩⟩] ∧
      parse ("WAIT 1 t" ++ (" // " ++ "once /* or */ twice") ++ "\nWAIT 2 t") none =
        .ok [.wait ⟨1, .ticks, ⟨1, 1⟩⟩, .wait ⟨2, .ticks, ⟨2, 1⟩⟩] := by
  have hread : parse ("WAIT 1 t" ++ "\nWAIT 2 t") none =
      .ok [.wait ⟨1, .ticks, ⟨1, 1⟩⟩, .wait ⟨2, .ticks, ⟨2, 1⟩⟩] := by
    cbv
  have hend : Text.LineEnd "WAIT 1 t".toList "\nWAIT 2 t".toList :=
    ⟨by simp [Text.isLineBreak], by simp⟩
  have hbefore : Closed "WAIT 1 t".toList := by
    unfold Closed
    cbv
  have hclosed : Closed "once /* or */ twice".toList := by
    unfold Closed
    cbv
  exact ⟨hread, parse_remark (.inl rfl) hend (by simp [Text.Unbroken, Text.isLineBreak]) hbefore
    hclosed hread⟩

/-- A block comment that is opened in a remark is not closed by the end of the line: if nothing behind
closes it either, the text does not read. -/
theorem parse_remark_open {before mark t after : String} {name : Option String}
    (hmark : mark = " // " ∨ mark = " # ") (hend : Text.LineEnd before.toList after.toList)
    (hbefore : Closed before.toList) (ht : ¬ Closed t.toList)
    (hafter : ¬ ['*', '/'] <:+: after.toList) :
    ∃ pos, parse (before ++ (mark ++ t) ++ after) name = .error ⟨.unclosedComment, pos, name⟩ := by
  have hm : IsMark mark.toList := hmark.imp (congrArg String.toList) (congrArg String.toList)
  have hhead : ∀ c, Text.isLineBreak c = false → after.toList.head? ≠ some c := by
    intro c hc hsome
    rw [hend.atBreak c hsome] at hc
    cases hc
  have hline : ¬ Closed (before.toList ++ (mark.toList ++ t.toList)) := fun h =>
    ht (hm.closed_iff.mp (hbefore.right h (hm.head? t.toList)))
  have hopen := not_closed_append hline hafter (hhead '*' (by decide)) (hhead '/' (by decide))
  obtain ⟨pos, hpos⟩ := Option.ne_none_iff_exists'.mp hopen
  refine ⟨pos, ?_⟩
  rw [parse, String.toList_append, String.toList_append, String.toList_append, tree_eq, textRows,
    hpos]
  rfl

/-- The shortest such text. -/
theorem parse_open_remark : parse "WAIT 1 t" none = .ok [.wait ⟨1, .ticks, ⟨1, 1⟩⟩] ∧
    parse "WAIT 1 t // /*" none = .error ⟨.unclosedComment, ⟨1, 13⟩, none⟩ :=
  ⟨by cbv, by cbv⟩

end Ostinato.Source
