import Ostinato.Proofs.Lexing

/-!
# What the tokens of a line are

A token that was cut from a line is spelled as its kind says (`TokenKind.Spells`) and stands in the
line at its column. Where cutting fails, the stray character stands there and is no blank.
-/

namespace Ostinato.Source

/-- How the tokens of a kind are spelled. -/
def TokenKind.Spells : TokenKind → List Char → Prop
  | .int, cs => ∃ digits, digits ≠ [] ∧ (∀ d ∈ digits, Text.isDigit d = true) ∧
      (cs = digits ∨ cs = '-' :: digits)
  | .word, cs => isWord cs = true
  | .punct, cs => ∃ c ∈ [',', ':', '='], cs = [c]

section
variable {p : Char → Bool} {c : Char} {cs : List Char}

/-! ## Lexemes -/

theorem run_le (p : Char → Bool) (cs : List Char) : run p cs ≤ cs.length :=
  (List.takeWhile_sublist p).length_le

theorem take_run (p : Char → Bool) (cs : List Char) : cs.take (run p cs) = cs.takeWhile p := by
  rw [run, ← List.prefix_iff_eq_take.mp (List.takeWhile_prefix p)]

theorem drop_run (p : Char → Bool) (cs : List Char) : cs.drop (run p cs) = cs.dropWhile p :=
  calc cs.drop (run p cs)
    _ = (cs.takeWhile p ++ cs.dropWhile p).drop (run p cs) := by rw [List.takeWhile_append_dropWhile]
    _ = cs.dropWhile p := List.drop_left

theorem run_take_run (p : Char → Bool) (cs : List Char) : run p (cs.take (run p cs)) = run p cs := by
  rw [take_run, run, List.takeWhile_takeWhile]
  simp [run]

theorem octaveTail_cons (cs : List Char) :
    octaveTail ('-' :: cs) = if run Text.isDigit cs = 0 then 0 else 1 + run Text.isDigit cs := rfl

theorem octaveTail_le (cs : List Char) : octaveTail cs ≤ cs.length := by
  unfold octaveTail
  split
  · rename_i rest
    have := run_le Text.isDigit rest
    rw [List.length_cons]
    split <;> omega
  · exact Nat.zero_le _

theorem octaveTail_of_ne (hc : c ≠ '-') (cs : List Char) : octaveTail (c :: cs) = 0 := by
  unfold octaveTail
  split
  · rename_i he
    cases he
    exact absurd rfl hc
  · rfl

theorem octaveTail_take (cs : List Char) : octaveTail (cs.take (octaveTail cs)) = octaveTail cs := by
  by_cases hzero : octaveTail cs = 0
  · rw [hzero]
    rfl
  · cases cs with
    | nil => rfl
    | cons c rest =>
      obtain rfl : c = '-' := by_contra fun hc => hzero (octaveTail_of_ne hc rest)
      rw [octaveTail_cons] at hzero ⊢
      split at hzero
      · exact absurd rfl hzero
      · rename_i hrun
        rw [if_neg hrun, Nat.add_comm, List.take_succ_cons, octaveTail_cons, run_take_run,
          if_neg hrun, Nat.add_comm]

theorem Stops.take (h : Stops p cs) (n : Nat) : Stops p (cs.take n) := by
  cases cs with
  | nil => simp [Stops]
  | cons c cs =>
    cases n with
    | zero => trivial
    | succ n => exact h

/-- What a word takes, in two parts. -/
theorem take_wordTail (cs : List Char) : cs.take (wordTail cs) = cs.takeWhile isWordChar ++
    (cs.dropWhile isWordChar).take (octaveTail (cs.dropWhile isWordChar)) := by
  rw [wordTail, List.take_add, take_run, drop_run]

theorem wordTail_le (cs : List Char) : wordTail cs ≤ cs.length := by
  have := octaveTail_le (cs.dropWhile isWordChar)
  have hsplit := congrArg List.length (List.takeWhile_append_dropWhile (p := isWordChar) (l := cs))
  rw [List.length_append] at hsplit
  unfold wordTail run
  omega

theorem isWord_take (hc : isWordStart c = true) (cs : List Char) :
    isWord (c :: cs.take (wordTail cs)) = true := by
  have htail : wordTail (cs.take (wordTail cs)) = (cs.take (wordTail cs)).length := by
    rw [List.length_take_of_le (wordTail_le cs), take_wordTail, wordTail,
      run_append (fun _ => List.mem_takeWhile_imp) ((stops_dropWhile _ _).take _),
      List.dropWhile_append_of_pos fun _ => List.mem_takeWhile_imp,
      ((stops_dropWhile _ _).take _).dropWhile, octaveTail_take]
    rfl
  rw [isWord, hc, htail, beq_self_eq_true, Bool.and_self]

theorem lexeme?_le {kind : LexemeKind} {n : Nat} (h : lexeme? c cs = some (kind, n)) :
    n ≤ cs.length := by
  have := run_le isSpace cs
  have := run_le (· != '\n') cs
  have := run_le Text.isDigit cs
  have := wordTail_le cs
  unfold lexeme? at h
  split_ifs at h <;> cases h <;> first | assumption | exact Nat.zero_le _

theorem lexeme?_spells {kind : TokenKind} {n : Nat} (h : lexeme? c cs = some (.token kind, n)) :
    kind.Spells (c :: cs.take n) := by
  have hdigits : ∀ d ∈ cs.take (run Text.isDigit cs), Text.isDigit d = true := fun d hd => by
    rw [take_run] at hd
    exact List.mem_takeWhile_imp hd
  unfold lexeme? at h
  split_ifs at h with _ _ _ _ hdigit hminus hrun hstart hpunct <;> cases h
  · exact ⟨_, List.cons_ne_nil c _, List.forall_mem_cons.mpr ⟨hdigit, hdigits⟩, .inl rfl⟩
  · refine ⟨cs.take (run Text.isDigit cs), ?_, hdigits, .inr (by rw [beq_iff_eq.mp hminus])⟩
    rw [← List.length_pos_iff, List.length_take_of_le (run_le _ cs)]
    exact Nat.pos_of_ne_zero hrun
  · exact isWord_take hstart cs
  · simp only [Bool.or_eq_true, beq_iff_eq] at hpunct
    exact ⟨c, by simpa [or_assoc] using hpunct, rfl⟩

theorem mem_octaveTail {d : Char} (h : d ∈ cs.take (octaveTail cs)) :
    d = '-' ∨ Text.isDigit d = true := by
  unfold octaveTail at h
  split at h
  · split at h
    · simp at h
    · rw [Nat.add_comm, List.take_succ_cons, take_run] at h
      exact (List.mem_cons.mp h).imp_right List.mem_takeWhile_imp
  · simp at h

/-- The characters of a word are ASCII, or digits at its end. -/
theorem isWordMore_of_isWord (h : isWord cs = true) : ∀ d ∈ cs, isWordMore d = true := by
  cases cs with
  | nil => cases h
  | cons c cs =>
    rw [isWord, Bool.and_eq_true, beq_iff_eq] at h
    have hstart : isWordMore c = true := by
      simp only [isWordMore, isWordChar, Char.isAlphanum, Bool.or_eq_true]
      have := h.1
      simp only [isWordStart, Bool.or_eq_true] at this
      tauto
    have hcs := take_wordTail cs
    rw [h.2, List.take_length] at hcs
    rw [List.forall_mem_cons, hcs, List.forall_mem_append]
    refine ⟨hstart, fun d hd => ?_, fun d hd => ?_⟩
    · simp [isWordMore, List.mem_takeWhile_imp hd]
    · rcases mem_octaveTail hd with rfl | hdigit
      · rfl
      · simp [isWordMore, hdigit]

theorem isSpace_of_stray (h : lexeme? c cs = none) : isSpace c = false := by
  unfold lexeme? at h
  split at h
  · cases h
  · simpa using ‹¬isSpace c = true›

namespace TokenKind.Spells

variable {kind : TokenKind} {cs : List Char}

theorem ne_nil (h : kind.Spells cs) : cs ≠ [] := by
  cases kind with
  | int =>
    obtain ⟨digits, hne, -, rfl | rfl⟩ := h
    · exact hne
    · exact List.cons_ne_nil _ _
  | word =>
    rintro rfl
    cases h
  | punct =>
    obtain ⟨c, -, rfl⟩ := h
    exact List.cons_ne_nil _ _

theorem not_mem_blank (h : kind.Spells cs) : ' ' ∉ cs := by
  have hdigit : Text.isDigit ' ' = false := Text.isDigit_eq_false (by decide) (by decide)
  intro hmem
  cases kind with
  | int =>
    obtain ⟨digits, -, hdigits, rfl | rfl⟩ := h
    · rw [hdigits _ hmem] at hdigit
      cases hdigit
    · rcases List.mem_cons.mp hmem with he | hmem
      · exact absurd he (by decide)
      · rw [hdigits _ hmem] at hdigit
        cases hdigit
  | word =>
    have := isWordMore_of_isWord h _ hmem
    simp [isWordMore, hdigit, isWordChar, Char.isAlphanum] at this
  | punct =>
    obtain ⟨c, hc, rfl⟩ := h
    rw [← List.mem_singleton.mp hmem] at hc
    exact absurd hc (by decide)

end TokenKind.Spells

/-! ## Tokens in a line -/

def Token.StandsIn (t : Token) (line column : Int) (text : List Char) : Prop :=
  t.line = line ∧ t.kind.Spells t.text.toList ∧
    ∃ j : Nat, t.column = column + j ∧ t.text.toList <+: text.drop j

theorem Token.StandsIn.of_drop {t : Token} {line column : Int} {n : Nat}
    (h : t.StandsIn line (column + n) (cs.drop n)) : t.StandsIn line column cs := by
  obtain ⟨hline, hspells, j, hcolumn, htext⟩ := h
  refine ⟨hline, hspells, n + j, by push_cast; omega, ?_⟩
  rwa [List.drop_drop] at htext

theorem tokensFrom_stand {line column : Int} {ts : List Token}
    (h : tokensFrom line column cs = .ok ts) : ∀ t ∈ ts, t.StandsIn line column cs := by
  induction hn : cs.length using Nat.strong_induction_on generalizing cs column ts with
  | _ n ih =>
    cases cs with
    | nil =>
      rw [tokensFrom] at h
      cases h
      simp
    | cons c cs =>
      rw [tokensFrom] at h
      split at h
      · cases h
      · rename_i kind m hlex
        split at h
        · cases h
        · rename_i rest hrest
          have hlt : (cs.drop m).length < n := by simp at hn ⊢; omega
          have hdrop : ∀ t ∈ rest, t.StandsIn line column (c :: cs) := fun t ht => by
            have hstand := ih _ hlt hrest rfl t ht
            exact .of_drop (n := m + 1) (by push_cast; rwa [Int.add_comm m 1, ← Int.add_assoc])
          split at h
          · cases h
            refine List.forall_mem_cons.mpr ⟨⟨rfl, ?_, 0, by simp, ?_⟩, hdrop⟩
            · simpa using lexeme?_spells hlex
            · simpa using List.take_prefix m cs
          · cases h
            exact hdrop

theorem tokens_stand {line : Int} {ts : List Token} (h : tokens line cs = .ok ts) :
    ∀ t ∈ ts, t.StandsIn line 1 cs :=
  tokensFrom_stand h

theorem tokensFrom_stray {line column : Int} {s : Stray} (h : tokensFrom line column cs = .error s) :
    isSpace s.char = false ∧ ∃ j : Nat, s.column = column + j ∧ cs[j]? = some s.char := by
  induction hn : cs.length using Nat.strong_induction_on generalizing cs column with
  | _ n ih =>
    cases cs with
    | nil =>
      rw [tokensFrom] at h
      cases h
    | cons c cs =>
      rw [tokensFrom] at h
      split at h
      · rename_i hlex
        cases h
        exact ⟨isSpace_of_stray hlex, 0, by simp, rfl⟩
      · rename_i kind m hlex
        split at h
        · rename_i s' hrest
          cases h
          have hlt : (cs.drop m).length < n := by simp at hn ⊢; omega
          obtain ⟨hspace, j, hcolumn, hj⟩ := ih _ hlt hrest rfl
          refine ⟨hspace, m + 1 + j, by push_cast; omega, ?_⟩
          rw [List.getElem?_drop] at hj
          rw [show m + 1 + j = m + j + 1 by omega, List.getElem?_cons_succ, hj]
        · split at h <;> cases h

theorem tokens_stray {line : Int} {s : Stray} (h : tokens line cs = .error s) :
    isSpace s.char = false ∧ ∃ j : Nat, s.column = 1 + j ∧ cs[j]? = some s.char :=
  tokensFrom_stray h

end

end Ostinato.Source
