import Ostinato.Proofs.Blanking
import Ostinato.Text.Number

/-!
# Errors are located

A text that cannot be read fails with a fault of the text, at a place in it, or at a number that is
too long to be converted. Two things are behind this: whatever else is converted on the way, to an
integer or by a table, has a value (`Token.Converts`), and each token stands in a line of the text, so
its columns are columns of that line or the one behind its end.
-/

namespace Ostinato

namespace Text

/-! ## Integers -/

theorem isBlank_of_isDigit {c : Char} (h : isDigit c = true) : isBlank c = false := by
  -- No blank is among the digits of a script: these are apart from the blanks of ASCII and Latin,
  -- the Ogham space, and those of general punctuation and of the ideographs.
  have hzeros : ∀ z ∈ decimalZeros, z = 0x30 ∨ (0xa0 < z ∧ z + 9 < 0x1680) ∨
      (0x1680 < z ∧ z + 9 < 0x2000) ∨ 0x3000 < z := by decide
  rw [isDigit, digit?, Option.isSome_map, List.find?_isSome] at h
  obtain ⟨z, hz, hrange⟩ := h
  have := hzeros z hz
  simp only [Bool.and_eq_true, decide_eq_true_eq] at hrange
  simp only [isBlank, Bool.or_eq_false_iff, Bool.and_eq_false_iff, decide_eq_false_iff_not,
    beq_eq_false_iff_ne]
  omega

section
variable {cs digits tail : List Char}

theorem trim_append (hcs : ∀ c ∈ cs, isBlank c = false) (htail : ∀ c ∈ tail, isBlank c = true) :
    trim (cs ++ tail) = cs := by
  cases cs with
  | nil =>
    rw [trim, List.nil_append, List.dropWhile_eq_nil_iff.mpr htail]
    rfl
  | cons c cs =>
    obtain ⟨last, init, hinit⟩ := List.exists_cons_of_ne_nil
      (List.reverse_ne_nil_iff.mpr (List.cons_ne_nil c cs))
    have hlast : isBlank last = false :=
      hcs last (List.mem_reverse.mp (hinit ▸ List.mem_cons_self))
    rw [trim, List.cons_append, List.dropWhile_cons_of_neg (by simp [hcs c]), ← List.cons_append,
      List.reverse_append, List.dropWhile_append_of_pos fun d hd => htail d (List.mem_reverse.mp hd),
      hinit, List.dropWhile_cons_of_neg (by simp [hlast]), ← hinit, List.reverse_reverse]

theorem isGrouped_digits (hne : digits ≠ []) (h : ∀ d ∈ digits, isDigit d = true) :
    isGrouped digits = true := by
  induction digits with
  | nil => exact absurd rfl hne
  | cons c rest ih =>
    obtain ⟨hc, hrest⟩ := List.forall_mem_cons.mp h
    cases rest with
    | nil => exact hc
    | cons d rest => rw [isGrouped, hc, ih (List.cons_ne_nil _ _) hrest, Bool.true_or, Bool.and_self]

theorem groupedNumber_digits (h : ∀ d ∈ digits, isDigit d = true) :
    groupedNumber digits = number digits := by
  rw [groupedNumber, List.filter_eq_self.mpr h]

theorem integer?_digits (hne : digits ≠ []) (h : ∀ d ∈ digits, isDigit d = true)
    (htail : ∀ c ∈ tail, isBlank c = true) :
    integer? (String.ofList (digits ++ tail)) = some (number digits : Int) := by
  have hsign : splitSign digits = (false, digits) := by
    unfold splitSign
    split
    · exact absurd (h '-' List.mem_cons_self) (by decide)
    · exact absurd (h '+' List.mem_cons_self) (by decide)
    · rfl
  rw [integer?, String.toList_ofList, trim_append (fun d hd => isBlank_of_isDigit (h d hd)) htail,
    hsign]
  simp only [isGrouped_digits hne h, groupedNumber_digits h, if_true, Bool.false_eq_true, if_false]

theorem integer?_minus (hne : digits ≠ []) (h : ∀ d ∈ digits, isDigit d = true)
    (htail : ∀ c ∈ tail, isBlank c = true) :
    integer? (String.ofList ('-' :: (digits ++ tail))) = some (-(number digits : Int)) := by
  have hblank : ∀ c ∈ '-' :: digits, isBlank c = false :=
    List.forall_mem_cons.mpr ⟨by decide, fun d hd => isBlank_of_isDigit (h d hd)⟩
  rw [integer?, String.toList_ofList, ← List.cons_append, trim_append hblank htail, splitSign]
  simp only [isGrouped_digits hne h, groupedNumber_digits h, if_true]

end

end Text

theorem Pitch.integer?_octave {cs : List Char} {o : Int} (h : octave? cs = some o) :
    Text.integer? (String.ofList cs) = some o := by
  have htail : ∀ {tail : List Char}, tail = [] ∨ tail = ['\n'] →
      ∀ c ∈ tail, Text.isBlank c = true := by
    rintro _ (rfl | rfl) <;> simp [Text.isBlank]
  rcases octave?_eq_some.mp h with ⟨hne, hdigits, ht⟩ | ⟨hne, hdigits, ht⟩
  · exact Text.integer?_digits hne hdigits (htail ht)
  · exact Text.integer?_minus hne hdigits (htail ht)

namespace Source

/-- Whatever is converted of a token has a value: an integer is one, and the accidental of a word
that is a pitch literal adds semitones. -/
structure Token.Converts (t : Token) : Prop where
  integer : t.kind = .int → Text.integer? t.text = some t.value
  accidental : t.kind = .word → ∀ pc a octave,
    Pitch.split? t.text.toList = some (pc, some a, octave) → (Pitch.accidental? a).isSome = true

theorem TokenKind.Spells.converts {t : Token} (h : t.kind.Spells t.text.toList) : t.Converts where
  integer hkind := by
    rw [hkind] at h
    obtain ⟨digits, hne, hdigits, htext⟩ := h
    have hnone : ∀ c ∈ ([] : List Char), Text.isBlank c = true := by simp
    have hstring : t.text = String.ofList t.text.toList := by simp
    rcases htext with htext | htext
    · have hvalue : t.value = Text.number digits := by
        rw [Token.value, htext]
        split
        · exact absurd (hdigits '-' List.mem_cons_self) (by decide)
        · rfl
      rw [hstring, htext, hvalue, ← Text.integer?_digits hne hdigits hnone, List.append_nil]
    · have hvalue : t.value = -(Text.number digits : Int) := by
        rw [Token.value, htext]
        rfl
      rw [hstring, htext, hvalue, ← Text.integer?_minus hne hdigits hnone, List.append_nil]
  accidental hkind pc a octave hsplit := by
    rw [hkind] at h
    obtain ⟨letter, rest, hcs, -, -, ha⟩ := Pitch.split?_eq_some.mp hsplit
    have hlong := not_isLongS_of_isWord h (a := a) (by simp [hcs])
    exact (ha a rfl).resolve_right (by simp [hlong])

/-! ## Lines of a text with line feeds only -/

section
variable {text : List Char}

/-- Line feeds are the only line breaks in the text. -/
def OnlyFeeds (text : List Char) : Prop := ∀ c ∈ text, Text.isLineBreak c = true → c = '\n'

theorem OnlyFeeds.feedsBefore (h : OnlyFeeds text) (i : Nat) : FeedsBefore text i := by
  rintro j - c ⟨hc, hends⟩
  rw [Text.endsLine, Bool.and_eq_true] at hends
  exact h c (List.mem_of_getElem? hc) hends.1

/-- A character of a blanked line stands at its column of the line itself. -/
theorem OnlyFeeds.exists_line (h : OnlyFeeds text) {k j : Nat} {l : List Char} {c : Char}
    (hl : (Text.lines (blankComments text))[k]? = some l) (hc : l[j]? = some c) (hblank : c ≠ ' ') :
    ∃ l', (Text.lines text)[k]? = some l' ∧ j < l'.length := by
  have hunbroken := (Text.lines_stand hl).1 c (List.mem_of_getElem? hc)
  have hplaced := placed_of_line hl (singleton_isPrefix hc)
    (List.cons_ne_nil _ _) (by simpa using hblank.symm)
  obtain ⟨i, hi⟩ := hplaced.exists_index
  obtain ⟨k', j', l', hp, hl', hj'⟩ :=
    Text.exists_line (getElem?_of_isPrefix (hplaced.stands i hi)) hunbroken
      ((hplaced.position i hi).mp (h.feedsBefore i).keptBefore)
  simp only [Pos.mk.injEq] at hp
  obtain rfl : k = k' := by omega
  obtain rfl : j = j' := by omega
  exact ⟨l', hl', (List.getElem?_eq_some_iff.mp hj').1⟩

/-- A token of a blanked line stands in the line itself, all of it. -/
theorem OnlyFeeds.exists_line_token (h : OnlyFeeds text) {k : Nat} {l : List Char}
    (hl : (Text.lines (blankComments text))[k]? = some l) {ts : List Token} {t : Token}
    (hts : tokens (1 + k) l = .ok ts) (ht : t ∈ ts) :
    ∃ (l' : List Char) (j : Nat), (Text.lines text)[k]? = some l' ∧ t.line = k + 1 ∧
      t.column = j + 1 ∧ j + t.text.length ≤ l'.length ∧ 0 < t.text.length := by
  obtain ⟨hline, hspells, j, hcolumn, more, hj⟩ := tokens_stand hts t ht
  have hne := hspells.ne_nil
  have hlength := String.length_toList (s := t.text)
  have hpos := List.length_pos_iff.mpr hne
  have hlast : l[j + (t.text.toList.length - 1)]? = some (t.text.toList.getLast hne) := by
    rw [← List.getElem?_drop, ← hj, List.getElem?_append_left (by omega),
      ← List.getLast?_eq_getElem?, List.getLast?_eq_some_getLast hne]
  obtain ⟨l', hl', hlt⟩ := h.exists_line hl hlast fun hblank =>
    hspells.not_mem_blank (hblank ▸ List.getLast_mem hne)
  exact ⟨l', j, hl', by omega, by omega, by omega, by omega⟩

/-- A position is in a line of the text, or right behind one. -/
def InLine (text : List Char) (pos : Pos) : Prop :=
  ∃ (k : Nat) (l : List Char), (Text.lines text)[k]? = some l ∧ pos.line = k + 1 ∧
    1 ≤ pos.column ∧ pos.column ≤ l.length + 1

theorem FaultAt.inLine (h : OnlyFeeds text) {k : Nat} {l : List Char} {f : Fault} {pos : Pos}
    (hl : (Text.lines (blankComments text))[k]? = some l) (hfault : FaultAt (1 + k) l f pos) :
    InLine text pos := by
  cases hfault with
  | @stray s hs =>
    obtain ⟨hspace, j, hcolumn, hj⟩ := tokens_stray hs
    obtain ⟨l', hl', hlt⟩ := h.exists_line hl hj fun hblank => by
      rw [hblank] at hspace
      cases hspace
    exact ⟨k, l', hl', Int.add_comm _ _, by simp only; omega, by simp only; omega⟩
  | token hts ht =>
    obtain ⟨l', j, hl', hline, hcolumn, hle, hpos⟩ := h.exists_line_token hl hts ht
    exact ⟨k, l', hl', hline, by simp only [Token.pos]; omega, by simp only [Token.pos]; omega⟩
  | ended hts ht =>
    obtain ⟨l', j, hl', hline, hcolumn, hle, hpos⟩ := h.exists_line_token hl hts ht
    refine ⟨k, l', hl', hline, ?_, ?_⟩ <;> simp only [Token.endPos, Token.endColumn] <;> omega

theorem Opens.inLine (h : OnlyFeeds text) {pos : Pos} (hopens : Opens text pos) :
    InLine text pos := by
  obtain ⟨i, hi⟩ := hopens.exists_index
  obtain ⟨k, j, l, rfl, hl, hj⟩ := Text.exists_line (getElem?_of_isPrefix (hopens.stands i hi))
    (by decide) ((hopens.position i hi).mp (h.feedsBefore i))
  have := (List.getElem?_eq_some_iff.mp hj).1
  exact ⟨k, l, hl, rfl, by simp only; omega, by simp only; omega⟩

end

theorem FaultAt.cause {text : List Char} {k : Nat} {l : List Char} {f : Fault} {pos : Pos}
    (h : FaultAt (1 + k) l f pos) (hl : (Text.lines (blankComments text))[k]? = some l) :
    f.isSyntax = true ∨ ∃ t, IsToken text t ∧ t.IsTooLong f := by
  cases h with
  | stray => exact .inl rfl
  | token hts ht hf => exact hf.imp_right fun hlong => ⟨_, ⟨k, l, _, hl, hts, ht⟩, hlong⟩
  | ended _ _ hf => exact .inl hf

/-- **A text that cannot be read fails with a located fault of the text.** No conversion on the way
can fail, save that of a number which is too long: an integer token converts, and so does the octave
of a pitch literal, and the accidental of a token is in the table. An error names the source. Its
cause is a fault of the text, unless an integer token has more digits than are converted, and it is
placed at a comment that is never closed, at a stray character, or at a token or right behind one. If
the text has no line breaks but line feeds, that place is in a line of the text or right behind one. -/
theorem parse_error_located (text : String) (name : Option String) :
    (∀ t, IsToken text.toList t → t.Converts) ∧
    (∀ cs octave, Pitch.octave? cs = some octave → Text.integer? (String.ofList cs) = some octave) ∧
    ∀ e, parse text name = .error e → e.source = name ∧
      (e.cause.isSyntax = true ∨ ∃ t, IsToken text.toList t ∧ t.IsTooLong e.cause) ∧
      (e.cause = .unclosedComment ∨ (∃ c, e.cause = .strayCharacter c) ∨
        ∃ t, IsToken text.toList t ∧ (e.pos = t.pos ∨ e.pos = t.endPos)) ∧
      (OnlyFeeds text.toList → InLine text.toList e.pos) := by
  refine ⟨?_, fun cs octave h => Pitch.integer?_octave h, fun e he => ?_⟩
  · rintro t ⟨k, l, ts, -, hts, ht⟩
    exact (tokens_stand hts t ht).2.1.converts
  · obtain ⟨hsource, ⟨hcause, hopen⟩ | ⟨k, l, hl, hfault⟩⟩ := parse_error he
    · refine ⟨hsource, .inl (by rw [hcause]; rfl), .inl hcause, fun hfeeds => ?_⟩
      exact (opens_of_opening? hopen).inLine hfeeds
    · refine ⟨hsource, hfault.cause hl, .inr ?_, fun hfeeds => hfault.inLine hfeeds hl⟩
      exact (hfault.placed hl).imp_left fun ⟨c, hc, _⟩ => ⟨c, hc⟩

/-- A line that ends where a unit is expected. -/
def endedText : String := "PLAY c4\n WAIT 1"

theorem parse_endedText :
    parse endedText none = .error ⟨.lineEnded "time unit", ⟨2, 8⟩, none⟩ := by
  cbv

theorem parse_error_located_ended :
    parse endedText none = .error ⟨.lineEnded "time unit", ⟨2, 8⟩, none⟩ ∧
      OnlyFeeds endedText.toList ∧ InLine endedText.toList ⟨2, 8⟩ := by
  have hfeeds : OnlyFeeds endedText.toList := by
    simp [OnlyFeeds, endedText, Text.isLineBreak]
  exact ⟨parse_endedText, hfeeds,
    ((parse_error_located endedText none).2.2 _ parse_endedText).2.2.2 hfeeds⟩

end Source

end Ostinato
