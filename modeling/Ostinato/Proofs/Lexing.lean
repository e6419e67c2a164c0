import Ostinato.Proofs.Grammar
import Ostinato.Text.Blank

/-!
# Cutting a line that was printed

A printed line consists of words, numbers and signs with single blanks here and there. `Cuts` says
which tokens such a line consists of: one constructor for each kind of piece, with what must not come
right behind it for the piece to end there. `Cuts.tokens` says that the reader cuts the line into
these tokens, each the longest that starts at its column.
-/

namespace Ostinato

namespace Text

/-! ## Digits -/

theorem mem_decimalZeros {z : Nat} (h : z ∈ decimalZeros) : z = 0x30 ∨ 0x660 ≤ z := by
  have hall : ∀ z ∈ decimalZeros, z = 0x30 ∨ 0x660 ≤ z := by decide
  exact hall z h

theorem isDigit_iff {c : Char} : c.isDigit = true ↔ 0x30 ≤ c.toNat ∧ c.toNat ≤ 0x39 := by
  simp [Char.isDigit, UInt32.le_iff_toNat_le]

theorem digit?_of_isDigit {c : Char} (h : c.isDigit = true) :
    digit? c = some (c.toNat - '0'.toNat) := by
  have hc := isDigit_iff.mp h
  have hzero : (decide (0x30 ≤ c.toNat) && decide (c.toNat < 0x30 + 10)) = true := by
    simp only [Bool.and_eq_true, decide_eq_true_eq]
    omega
  rw [digit?, decimalZeros, List.find?_cons, hzero]
  rfl

theorem isDigit_of_isDigit {c : Char} (h : c.isDigit = true) : isDigit c = true := by
  rw [isDigit, digit?_of_isDigit h]
  rfl

theorem isDigit_eq_false {c : Char} (hc : c.toNat < 0x80) (h : c.isDigit = false) :
    isDigit c = false := by
  rw [isDigit, digit?, Option.isSome_map, Option.isSome_eq_false_iff, Option.isNone_iff_eq_none,
    List.find?_eq_none]
  intro z hz
  have hno : ¬(0x30 ≤ c.toNat ∧ c.toNat ≤ 0x39) := by
    rw [← isDigit_iff, h]
    exact Bool.false_ne_true
  simp only [Bool.and_eq_true, decide_eq_true_eq]
  rcases mem_decimalZeros hz with rfl | hz <;> omega

theorem isDigit_toDigits (n : Nat) : ∀ d ∈ Nat.toDigits 10 n, d.isDigit = true := fun _ hd =>
  Nat.isDigit_of_mem_toDigits (by decide) (by decide) hd

theorem number_toDigits (n : Nat) : number (Nat.toDigits 10 n) = n := by
  have hfold : ∀ (ds : List Char) (a : Nat), (∀ d ∈ ds, d.isDigit = true) →
      ds.foldl (fun n c => n * 10 + (digit? c).getD 0) a = Nat.ofDigitChars 10 ds a := by
    intro ds
    induction ds with
    | nil => exact fun _ _ => rfl
    | cons d ds ih =>
      intro a hds
      have hd := digit?_of_isDigit (hds d (by simp))
      rw [List.foldl_cons, ih _ fun e he => hds e (by simp [he]), hd, Option.getD_some, Nat.mul_comm]
      rfl
  rw [number, hfold _ _ (isDigit_toDigits n), Nat.ofDigitChars_toDigits (by decide) (by decide)]

end Text

namespace Source

/-! ## Lexemes -/

/-- No character of a class comes next. -/
def Stops (p : Char → Bool) : List Char → Prop
  | [] => True
  | c :: _ => p c = false

section
variable {p : Char → Bool} {cs rest : List Char}

theorem Stops.takeWhile (h : Stops p cs) : cs.takeWhile p = [] := by
  cases cs with
  | nil => rfl
  | cons c cs => exact List.takeWhile_cons_of_neg (by rw [show p c = false from h]; simp)

theorem Stops.dropWhile (h : Stops p cs) : cs.dropWhile p = cs := by
  cases cs with
  | nil => rfl
  | cons c cs => exact List.dropWhile_cons_of_neg (by rw [show p c = false from h]; simp)

theorem stops_dropWhile (p : Char → Bool) (cs : List Char) : Stops p (cs.dropWhile p) := by
  induction cs with
  | nil => trivial
  | cons c cs ih =>
    by_cases hc : p c = true
    · rwa [List.dropWhile_cons_of_pos hc]
    · rw [List.dropWhile_cons_of_neg hc]
      show p c = false
      simpa using hc

theorem run_append (h : ∀ c ∈ cs, p c = true) (hrest : Stops p rest) :
    run p (cs ++ rest) = cs.length := by
  rw [run, List.takeWhile_append_of_pos h, hrest.takeWhile, List.append_nil]

end

/-- What would be taken into a word or a pitch literal that stands before it. -/
def isWordMore (c : Char) : Bool := isWordChar c || c == '-' || Text.isDigit c

theorem Stops.of_more {cs : List Char} (h : Stops isWordMore cs) :
    Stops isWordChar cs ∧ octaveTail cs = 0 ∧ Stops Text.isDigit cs := by
  cases cs with
  | nil => exact ⟨trivial, rfl, trivial⟩
  | cons c cs =>
    simp only [Stops, isWordMore, Bool.or_eq_false_iff, beq_eq_false_iff_ne] at h
    refine ⟨h.1.1, ?_, h.2⟩
    unfold octaveTail
    split
    · rename_i he
      cases he
      exact absurd rfl h.1.2
    · rfl

/-- A whole word: a letter and what belongs to it. It may be a pitch literal in a low octave. -/
def isWord : List Char → Bool
  | [] => false
  | c :: cs => isWordStart c && wordTail cs == cs.length

theorem octaveTail_append {cs rest : List Char} (h : octaveTail cs = cs.length)
    (hrest : Stops isWordMore rest) : octaveTail (cs ++ rest) = cs.length := by
  obtain ⟨-, hzero, hdigit⟩ := hrest.of_more
  cases cs with
  | nil => exact hzero
  | cons c ds =>
    unfold octaveTail at h
    split at h
    · rename_i ds' he
      cases he
      by_cases hnone : run Text.isDigit ds = 0
      · simp [hnone] at h
      · rw [if_neg hnone, List.length_cons] at h
        have hall : ∀ d ∈ ds, Text.isDigit d = true := by
          rw [← List.takeWhile_eq_self_iff]
          exact (List.takeWhile_prefix _).eq_of_length (by unfold run at h; omega)
        have hrun := run_append hall hdigit
        have hne : ds.length ≠ 0 := by
          rwa [← run_append hall (show Stops Text.isDigit [] from trivial), List.append_nil]
        rw [List.cons_append, octaveTail, hrun, if_neg hne, List.length_cons, Nat.add_comm]
    · simp at h

theorem wordTail_append {cs rest : List Char} (h : wordTail cs = cs.length)
    (hrest : Stops isWordMore rest) : wordTail (cs ++ rest) = cs.length := by
  obtain ⟨hword, -, -⟩ := hrest.of_more
  have hsplit := List.takeWhile_append_dropWhile (p := isWordChar) (l := cs)
  have hall : ∀ c ∈ cs.takeWhile isWordChar, isWordChar c = true :=
    fun c hc => List.mem_takeWhile_imp hc
  have hstop : Stops isWordChar (cs.dropWhile isWordChar ++ rest) := by
    have hdrop := stops_dropWhile isWordChar cs
    cases hd : cs.dropWhile isWordChar with
    | nil => exact hword
    | cons d ds =>
      rw [hd] at hdrop
      exact hdrop
  have hlength := congrArg List.length hsplit
  rw [List.length_append] at hlength
  have htail : octaveTail (cs.dropWhile isWordChar) = (cs.dropWhile isWordChar).length := by
    unfold wordTail run at h
    omega
  rw [← hsplit, List.append_assoc, wordTail, run_append hall hstop,
    List.dropWhile_append_of_pos hall, hstop.dropWhile, octaveTail_append htail hrest,
    List.length_append]

theorem lexeme?_digit {c : Char} (h : Text.isDigit c = true) (cs : List Char) :
    lexeme? c cs = some (.token .int, run Text.isDigit cs) := by
  have hne : ∀ d : Char, Text.isDigit d = false → c ≠ d := by
    rintro d hd rfl
    rw [h] at hd
    cases hd
  have hspace : isSpace c = false := by
    simp [isSpace, hne ' ' (by decide), hne '\t' (by decide)]
  simp [lexeme?, hspace, hne '#' (by decide), hne '/' (by decide), h]

theorem isWordStart_range {c : Char} (h : isWordStart c = true) :
    0x41 ≤ c.toNat ∧ c.toNat ≤ 0x7a := by
  simp only [isWordStart, Char.isAlpha, Char.isUpper, Char.isLower, Bool.or_eq_true,
    Bool.and_eq_true, decide_eq_true_eq, beq_iff_eq] at h
  rcases h with (⟨h0, h1⟩ | ⟨h0, h1⟩) | rfl
  · exact ⟨UInt32.le_iff_toNat_le.mp h0, (UInt32.le_iff_toNat_le.mp h1).trans (by decide)⟩
  · exact ⟨le_trans (by decide) (UInt32.le_iff_toNat_le.mp h0), UInt32.le_iff_toNat_le.mp h1⟩
  · decide

theorem lexeme?_word {c : Char} (h : isWordStart c = true) (cs : List Char) :
    lexeme? c cs = some (.token .word, wordTail cs) := by
  have hne : ∀ d : Char, isWordStart d = false → c ≠ d := by
    rintro d hd rfl
    rw [h] at hd
    cases hd
  have hrange := isWordStart_range h
  have hspace : isSpace c = false := by
    simp [isSpace, hne ' ' (by decide), hne '\t' (by decide)]
  have hdigit : Text.isDigit c = false := by
    apply Text.isDigit_eq_false
    · omega
    · rw [Bool.eq_false_iff, ne_eq, Text.isDigit_iff]
      omega
  simp [lexeme?, hspace, hne '#' (by decide), hne '/' (by decide), hdigit, hne '-' (by decide), h]

/-! ## Lines in pieces -/

/-- What a printed word consists of. -/
def isInk (c : Char) : Bool := c.isAlphanum || c == '_' || c == '-'

def isPrinted (c : Char) : Bool := isInk c || [' ', ',', ':', '='].contains c

/-- The rest `cs` of a line that starts at a column consists of pieces that make the tokens `ts`. -/
inductive Cuts (line : Int) : Int → List Char → List Token → Prop where
  | nil {column : Int} : Cuts line column [] []
  | gap {column : Int} {cs : List Char} {ts : List Token} :
      Stops isSpace cs → Cuts line (column + 1) cs ts → Cuts line column (' ' :: cs) ts
  | sign {column : Int} {c : Char} {cs : List Char} {ts : List Token} :
      c ∈ [',', ':', '='] → Cuts line (column + 1) cs ts →
      Cuts line column (c :: cs) (⟨.punct, String.ofList [c], line, column⟩ :: ts)
  | number {column : Int} {n : Nat} {cs : List Char} {ts : List Token} :
      Stops Text.isDigit cs → Cuts line (column + (Nat.toDigits 10 n).length) cs ts →
      Cuts line column (Nat.toDigits 10 n ++ cs) (⟨.int, toString n, line, column⟩ :: ts)
  | word {column : Int} {w : String} {cs : List Char} {ts : List Token} :
      isWord w.toList = true → w.toList.all isInk = true → Stops isWordMore cs →
      Cuts line (column + w.length) cs ts →
      Cuts line column (w.toList ++ cs) (⟨.word, w, line, column⟩ :: ts)

section
variable {line column : Int} {cs : List Char} {ts : List Token}

/-- A token is cut off and the rest of the line goes on behind it. -/
theorem tokensFrom_token {c : Char} {tail : List Char} {kind : TokenKind}
    (h : lexeme? c (tail ++ cs) = some (.token kind, tail.length))
    (hrest : tokensFrom line (column + (c :: tail).length) cs = .ok ts) :
    tokensFrom line column (c :: tail ++ cs) =
      .ok (⟨kind, String.ofList (c :: tail), line, column⟩ :: ts) := by
  have hcolumn : column + 1 + tail.length = column + (c :: tail).length := by
    rw [List.length_cons]
    omega
  rw [List.cons_append, tokensFrom, h]
  simp only [List.drop_left, List.take_left, hcolumn, hrest]

/-- The reader cuts a line as it was put together. -/
theorem Cuts.tokens (h : Cuts line column cs ts) : tokensFrom line column cs = .ok ts := by
  induction h with
  | nil => rw [tokensFrom]
  | @gap column cs ts hstop _ ih =>
    have hblank : lexeme? ' ' cs = some (.blank, 0) := by
      show some (LexemeKind.blank, run isSpace cs) = _
      rw [run, hstop.takeWhile]
      rfl
    rw [tokensFrom, hblank]
    simp only [List.drop_zero, Nat.cast_zero, Int.add_zero, ih]
  | @sign column c cs ts hc _ ih =>
    have hsign : lexeme? c ([] ++ cs) = some (.token .punct, ([] : List Char).length) := by
      fin_cases hc <;> rfl
    exact tokensFrom_token hsign ih
  | @number column n cs ts hstop _ ih =>
    have hdigits := Text.isDigit_toDigits n
    have htext : toString n = String.ofList (Nat.toDigits 10 n) := Nat.repr_eq_ofList_toDigits
    rw [htext]
    cases hd : Nat.toDigits 10 n with
    | nil => exact absurd hd Nat.toDigits_ne_nil
    | cons d ds =>
      rw [hd] at hdigits ih
      refine tokensFrom_token ?_ ih
      rw [lexeme?_digit (Text.isDigit_of_isDigit (hdigits d (by simp))),
        run_append (fun e he => Text.isDigit_of_isDigit (hdigits e (by simp [he]))) hstop]
  | @word column w cs ts hw _ hstop _ ih =>
    have htext : w = String.ofList w.toList := by simp
    rw [htext]
    rw [← String.length_toList] at ih
    cases hc : w.toList with
    | nil =>
      rw [hc] at hw
      cases hw
    | cons c tail =>
      rw [hc, isWord, Bool.and_eq_true, beq_iff_eq] at hw
      rw [hc] at ih
      simp only [String.toList_ofList]
      refine tokensFrom_token ?_ ih
      rw [lexeme?_word hw.1, wordTail_append hw.2 hstop]

theorem Cuts.printed (h : Cuts line column cs ts) : ∀ c ∈ cs, isPrinted c = true := by
  induction h with
  | nil => simp
  | gap _ _ ih => exact List.forall_mem_cons.mpr ⟨by decide, ih⟩
  | sign hc _ ih =>
    refine List.forall_mem_cons.mpr ⟨?_, ih⟩
    fin_cases hc <;> decide
  | @number _ n _ _ _ _ ih =>
    refine List.forall_mem_append.mpr ⟨fun d hd => ?_, ih⟩
    have hdigit := Text.isDigit_toDigits n d hd
    simp [isPrinted, isInk, Char.isAlphanum, hdigit]
  | word _ hink _ _ ih =>
    refine List.forall_mem_append.mpr ⟨fun d hd => ?_, ih⟩
    simp [isPrinted, List.all_eq_true.mp hink d hd]

/-- A printed line cannot hold a line break, a comment or an arrow. -/
theorem isPrinted_range {c : Char} (h : isPrinted c = true) : 0x20 ≤ c.toNat ∧ c.toNat ≤ 0x7a := by
  simp only [isPrinted, isInk, Char.isAlphanum, Bool.or_eq_true, beq_iff_eq,
    List.contains_iff_mem] at h
  rcases h with (((hc | hc) | rfl) | rfl) | hc
  · have := isWordStart_range (c := c) (by rw [isWordStart, hc]; rfl)
    omega
  · have := Text.isDigit_iff.mp hc
    omega
  · decide
  · decide
  · fin_cases hc <;> decide

theorem isLineBreak_of_isPrinted {c : Char} (h : isPrinted c = true) :
    Text.isLineBreak c = false := by
  have := isPrinted_range h
  simp only [Text.isLineBreak, Bool.or_eq_false_iff, Bool.and_eq_false_iff, decide_eq_false_iff_not,
    beq_eq_false_iff_ne]
  omega

theorem not_mem_of_printed {c : Char} (h : ∀ d ∈ cs, isPrinted d = true)
    (hc : isPrinted c = false) : c ∉ cs := by
  intro hmem
  rw [h c hmem] at hc
  cases hc

/-! ## Pieces behind a blank -/

theorem stops_number (n : Nat) (cs : List Char) : Stops isSpace (Nat.toDigits 10 n ++ cs) := by
  cases hd : Nat.toDigits 10 n with
  | nil => exact absurd hd Nat.toDigits_ne_nil
  | cons d ds =>
    have hdigit := Text.isDigit_iff.mp (Text.isDigit_toDigits n d (by simp [hd]))
    show isSpace d = false
    simp only [isSpace, Bool.or_eq_false_iff, beq_eq_false_iff_ne]
    constructor <;> rintro rfl <;> revert hdigit <;> decide

theorem stops_word {w : List Char} (hw : isWord w = true) (cs : List Char) :
    Stops isSpace (w ++ cs) := by
  cases w with
  | nil => cases hw
  | cons c tail =>
    rw [isWord, Bool.and_eq_true] at hw
    have hrange := isWordStart_range hw.1
    show isSpace c = false
    simp only [isSpace, Bool.or_eq_false_iff, beq_eq_false_iff_ne]
    constructor <;> rintro rfl <;> revert hrange <;> decide

theorem isWord_of_isIdentifier {s : String} (h : isIdentifier s = true) :
    isWord s.toList = true ∧ s.toList.all isInk = true := by
  unfold isIdentifier at h
  cases hs : s.toList with
  | nil => simp [hs] at h
  | cons c rest =>
    simp only [hs, Bool.and_eq_true, List.all_eq_true] at h
    obtain ⟨hc, hrest⟩ := h
    have hink : isInk c = true := by
      simp only [isWordStart, Bool.or_eq_true] at hc
      rcases hc with hc | hc <;> simp [isInk, Char.isAlphanum, hc]
    have hall : ∀ d ∈ rest, isWordChar d = true := by
      intro d hd
      have := hrest d hd
      simp_all [isWordChar]
    have htail : wordTail rest = rest.length := by
      have hnone : rest.dropWhile isWordChar = [] := List.dropWhile_eq_nil_iff.mpr hall
      have hrun := run_append hall (show Stops isWordChar [] from trivial)
      rw [List.append_nil] at hrun
      rw [wordTail, hnone, hrun]
      rfl
    refine ⟨?_, ?_⟩
    · rw [isWord, hc, htail]
      simp
    · rw [List.all_cons, hink, Bool.true_and, List.all_eq_true]
      intro d hd
      have := hrest d hd
      simp_all [isInk]

end

end Source

end Ostinato
