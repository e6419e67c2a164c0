import Ostinato.Proofs.Cutting

/-!
# Scanning a line

What a line consists of, without the reader: `Lexical` says how tokens are spelled, `IsLongest` that a
token cannot be longer where it starts, and `Scanned` that each of the first characters of a line
belongs to such a token, is a blank, or belongs to a comment behind all of these. The reader scans the
whole line (`tokensFrom_scanned`), or as far as nothing can start any more.
-/

namespace Ostinato.Source

/-! ## Spelling -/

/-- How tokens are spelled. A word may end in the octave of a pitch below zero. -/
inductive Lexical : TokenKind → List Char → Prop where
  | int {digits : List Char} : digits ≠ [] → (∀ d ∈ digits, Text.isDigit d = true) →
      Lexical .int digits
  | negative {digits : List Char} : digits ≠ [] → (∀ d ∈ digits, Text.isDigit d = true) →
      Lexical .int ('-' :: digits)
  | word {c : Char} {cs : List Char} : isWordStart c = true → (∀ d ∈ cs, isWordChar d = true) →
      Lexical .word (c :: cs)
  | lowWord {c : Char} {cs digits : List Char} : isWordStart c = true →
      (∀ d ∈ cs, isWordChar d = true) → digits ≠ [] → (∀ d ∈ digits, Text.isDigit d = true) →
      Lexical .word (c :: (cs ++ '-' :: digits))
  | punct {c : Char} : c ∈ [',', ':', '='] → Lexical .punct [c]

def StartsComment (cs : List Char) : Prop := ['#'] <+: cs ∨ ['/', '/'] <+: cs

/-- A token starts a text, and no token that does is longer. -/
structure IsLongest (kind : TokenKind) (token text : List Char) : Prop where
  lexical : Lexical kind token
  starts : token <+: text
  longest : ∀ kind' token', Lexical kind' token' → token' <+: text →
    kind' = kind ∧ token'.length ≤ token.length

structure NothingStarts (text : List Char) : Prop where
  blank : ∀ c, text.head? = some c → isSpace c = false
  comment : ¬StartsComment text
  token : ∀ kind token, Lexical kind token → ¬token <+: text

section
variable {kind : TokenKind} {c : Char} {cs token : List Char} {p : Char → Bool} {n : Nat}

theorem Lexical.ne_nil (h : Lexical kind token) : token ≠ [] := by
  cases h with
  | int hne => exact hne
  | _ => exact List.cons_ne_nil _ _

/-! ## Lexemes are longest -/

theorem length_le_run (hall : ∀ d ∈ token, p d = true) (h : token <+: cs) :
    token.length ≤ run p cs := by
  obtain ⟨more, rfl⟩ := h
  rw [run, List.takeWhile_append_of_pos hall, List.length_append]
  exact Nat.le_add_right _ _

theorem run_ne_zero (hne : token ≠ []) (hall : ∀ d ∈ token, p d = true) (h : token <+: cs) :
    run p cs ≠ 0 := by
  have hle := length_le_run hall h
  have hpos := List.length_pos_iff.mpr hne
  omega

/-- The end of a low word is taken whole: its minus belongs to no word. -/
theorem length_le_wordTail {digits : List Char} (hall : ∀ d ∈ token, isWordChar d = true)
    (hne : digits ≠ []) (hdigits : ∀ d ∈ digits, Text.isDigit d = true)
    (h : token ++ '-' :: digits <+: cs) : (token ++ '-' :: digits).length ≤ wordTail cs := by
  obtain ⟨more, rfl⟩ := h
  have hstop : Stops isWordChar ('-' :: (digits ++ more)) := by
    show isWordChar '-' = false
    decide
  have hdigits' : digits <+: digits ++ more := List.prefix_append _ _
  have hrun := length_le_run hdigits hdigits'
  rw [List.append_assoc, List.cons_append, wordTail, run_append hall hstop,
    List.dropWhile_append_of_pos hall, hstop.dropWhile, octaveTail_cons,
    if_neg (run_ne_zero hne hdigits hdigits'), List.length_append, List.length_cons]
  omega

/-- Whatever token starts with a character, the reader cuts one of its kind that is as long. -/
theorem Lexical.lexeme? (h : Lexical kind (c :: token)) (hp : token <+: cs) :
    ∃ n, lexeme? c cs = some (.token kind, n) ∧ token.length ≤ n := by
  cases h with
  | int _ hall =>
    obtain ⟨hc, htoken⟩ := List.forall_mem_cons.mp hall
    exact ⟨_, lexeme?_digit hc cs, length_le_run htoken hp⟩
  | negative hne hall =>
    refine ⟨_, ?_, length_le_run hall hp⟩
    have hminus : Source.lexeme? '-' cs =
        if run Text.isDigit cs = 0 then none else some (.token .int, run Text.isDigit cs) := rfl
    rw [hminus, if_neg (run_ne_zero hne hall hp)]
  | word hc hall =>
    exact ⟨_, lexeme?_word hc cs, Nat.le_add_right_of_le (length_le_run hall hp)⟩
  | lowWord hc hall hne hdigits =>
    exact ⟨_, lexeme?_word hc cs, length_le_wordTail hall hne hdigits hp⟩
  | punct hc =>
    refine ⟨0, ?_, Nat.le_refl 0⟩
    fin_cases hc <;> rfl

theorem wordTail_lexical (hc : isWordStart c = true) (cs : List Char) :
    Lexical .word (c :: cs.take (wordTail cs)) := by
  have hall : ∀ d ∈ cs.takeWhile isWordChar, isWordChar d = true :=
    fun _ => List.mem_takeWhile_imp
  rw [take_wordTail]
  by_cases hzero : octaveTail (cs.dropWhile isWordChar) = 0
  · rw [hzero, List.take_zero, List.append_nil]
    exact .word hc hall
  · cases hrest : cs.dropWhile isWordChar with
    | nil => exact absurd (by rw [hrest]; rfl) hzero
    | cons d rest =>
      rw [hrest] at hzero
      obtain rfl : d = '-' := by_contra fun hd => hzero (octaveTail_of_ne hd rest)
      rw [octaveTail_cons] at hzero ⊢
      split at hzero
      · exact absurd rfl hzero
      · rename_i hrun
        rw [if_neg hrun, Nat.add_comm, List.take_succ_cons, take_run]
        refine .lowWord hc hall ?_ fun _ => List.mem_takeWhile_imp
        exact List.ne_nil_of_length_pos (Nat.pos_of_ne_zero hrun)

/-- What the reader cuts is the longest token there. -/
theorem lexeme?_token (h : Source.lexeme? c cs = some (.token kind, n)) :
    IsLongest kind (c :: cs.take n) (c :: cs) := by
  refine ⟨?_, (List.prefix_cons_inj c).mpr (List.take_prefix n cs), fun kind' token hlex hp => ?_⟩
  · have hspells := lexeme?_spells h
    cases kind with
    | int =>
      obtain ⟨digits, hne, hall, he | he⟩ := hspells
      · exact he ▸ .int hne hall
      · exact he ▸ .negative hne hall
    | word =>
      unfold lexeme? at h
      split_ifs at h with _ _ _ _ _ _ _ hstart <;> cases h
      exact wordTail_lexical hstart cs
    | punct =>
      obtain ⟨d, hd, he⟩ := hspells
      exact he ▸ .punct hd
  · cases token with
    | nil => exact absurd rfl hlex.ne_nil
    | cons d token =>
      obtain ⟨rfl, htail⟩ := List.cons_prefix_cons.mp hp
      obtain ⟨n', hn', hle⟩ := hlex.lexeme? htail
      rw [h] at hn'
      cases hn'
      refine ⟨rfl, ?_⟩
      rw [List.length_cons, List.length_cons, List.length_take_of_le (lexeme?_le h)]
      exact Nat.succ_le_succ hle

theorem lexeme?_blank (h : Source.lexeme? c cs = some (.blank, n)) :
    isSpace c = true ∧ n = run isSpace cs := by
  unfold Source.lexeme? at h
  split_ifs at h with hc <;> cases h
  exact ⟨hc, rfl⟩

theorem lexeme?_comment (h : Source.lexeme? c cs = some (.comment, n)) :
    StartsComment (c :: cs) ∧ n = run (· != '\n') cs := by
  unfold Source.lexeme? at h
  split_ifs at h with _ hhash hslash hnext <;> cases h
  · rw [beq_iff_eq.mp hhash]
    exact ⟨.inl ⟨cs, rfl⟩, rfl⟩
  · rw [beq_iff_eq.mp hslash]
    obtain ⟨rest, rfl⟩ := List.head?_eq_some_iff.mp (beq_iff_eq.mp hnext)
    exact ⟨.inr ⟨rest, rfl⟩, rfl⟩

theorem lexeme?_none (h : Source.lexeme? c cs = none) : NothingStarts (c :: cs) := by
  refine ⟨?_, ?_, fun kind token hlex hp => ?_⟩
  · rintro d hd
    cases hd
    exact isSpace_of_stray h
  · rintro (⟨rest, he⟩ | ⟨rest, he⟩)
    · cases he
      cases h
    · cases he
      cases h
  · cases token with
    | nil => exact hlex.ne_nil rfl
    | cons d token =>
      obtain ⟨rfl, htail⟩ := List.cons_prefix_cons.mp hp
      obtain ⟨n, hn, -⟩ := hlex.lexeme? htail
      rw [h] at hn
      cases hn

end

/-! ## Scanned text -/

/-- A token is what stands from one character of a line up to another, the longest that can. -/
structure Token.StandsAt (t : Token) (line : Int) (text : List Char) (start stop : Nat) : Prop where
  line : t.line = line
  column : t.column = start + 1
  endColumn : t.endColumn = stop + 1
  characters : t.text.toList = text.extract start stop
  longest : IsLongest t.kind t.text.toList (text.drop start)

/-- A comment starts at the `m`-th character of a line and goes on up to the `n`-th, where the line
ends or breaks. -/
structure CommentAt (text : List Char) (m n : Nat) : Prop where
  starts : StartsComment (text.drop m)
  unbroken : ∀ i, m ≤ i → i < n → text[i]? ≠ some '\n'
  ends : ∀ c, text[n]? = some c → c = '\n'

/-- The characters of a line from the `k`-th up to the `n`-th are these tokens, blanks and a comment at
the end. -/
structure Scanned (line : Int) (text : List Char) (k n : Nat) (ts : List Token) : Prop where
  token : ∀ t ∈ ts, ∃ start stop, t.StandsAt line text start stop ∧
    k ≤ start ∧ start < stop ∧ stop ≤ n
  ordered : ts.Pairwise fun t t' => t.endColumn ≤ t'.column
  /-- The comment starts at the `m`-th character, unless there is none. -/
  covered : ∃ m, k ≤ m ∧ m ≤ n ∧ (∀ t ∈ ts, t.endColumn ≤ m + 1) ∧
    (∀ i c, k ≤ i → i < m → text[i]? = some c →
      isSpace c = true ∨ ∃ t ∈ ts, t.column ≤ i + 1 ∧ i + 1 < t.endColumn) ∧
    (m < n → CommentAt text m n)

/-- How far a line can be scanned from its `k`-th character: to its end, or to one where nothing can
start. -/
def ScannedAs (line : Int) (text : List Char) (k : Nat) : Except Stray (List Token) → Prop
  | .ok ts => Scanned line text k text.length ts
  | .error s => ∃ n ts, Scanned line text k n ts ∧
    s.column = n + 1 ∧ text[n]? = some s.char ∧ NothingStarts (text.drop n)

section
variable {line : Int} {text : List Char} {k k' n : Nat} {ts : List Token} {t : Token}

theorem Scanned.nil (line : Int) (text : List Char) (k : Nat) : Scanned line text k k [] :=
  ⟨by simp, .nil, k, Nat.le_refl k, Nat.le_refl k, by simp, fun i c hk hm => by omega,
    fun h => absurd h (Nat.lt_irrefl k)⟩

theorem Scanned.blank (hk : k ≤ k')
    (hblank : ∀ i c, k ≤ i → i < k' → text[i]? = some c → isSpace c = true)
    (h : Scanned line text k' n ts) : Scanned line text k n ts := by
  obtain ⟨m, hkm, hmn, hends, hcovered, hcomment⟩ := h.covered
  refine ⟨fun t ht => ?_, h.ordered, m, Nat.le_trans hk hkm, hmn, hends, fun i c hi him hc => ?_,
    hcomment⟩
  · obtain ⟨start, stop, hstands, hle, hlt, hstop⟩ := h.token t ht
    exact ⟨start, stop, hstands, Nat.le_trans hk hle, hlt, hstop⟩
  · rcases Nat.lt_or_ge i k' with hik | hik
    · exact .inl (hblank i c hi hik hc)
    · exact hcovered i c hik him hc

theorem Scanned.cons (hk : k < k') (ht : t.StandsAt line text k k')
    (h : Scanned line text k' n ts) : Scanned line text k n (t :: ts) := by
  obtain ⟨m, hkm, hmn, hends, hcovered, hcomment⟩ := h.covered
  refine ⟨List.forall_mem_cons.mpr ⟨?_, fun t' ht' => ?_⟩, List.pairwise_cons.mpr ⟨fun t' ht' => ?_,
    h.ordered⟩, m, by omega, hmn, List.forall_mem_cons.mpr ⟨?_, hends⟩, fun i c hi him hc => ?_,
    hcomment⟩
  · exact ⟨k, k', ht, Nat.le_refl k, hk, Nat.le_trans hkm hmn⟩
  · obtain ⟨start, stop, hstands, hle, hlt, hstop⟩ := h.token t' ht'
    exact ⟨start, stop, hstands, by omega, hlt, hstop⟩
  · obtain ⟨start, stop, hstands, hle, -⟩ := h.token t' ht'
    rw [ht.endColumn, hstands.column]
    omega
  · rw [ht.endColumn]
    omega
  · rcases Nat.lt_or_ge i k' with hik | hik
    · refine .inr ⟨t, List.mem_cons_self, ?_, ?_⟩
      · rw [ht.column]
        omega
      · rw [ht.endColumn]
        omega
    · exact (hcovered i c hik him hc).imp_right fun ⟨t', ht', hin⟩ =>
        ⟨t', List.mem_cons_of_mem t ht', hin⟩

theorem ScannedAs.blank {r : Except Stray (List Token)} (hk : k ≤ k')
    (hblank : ∀ i c, k ≤ i → i < k' → text[i]? = some c → isSpace c = true)
    (h : ScannedAs line text k' r) : ScannedAs line text k r := by
  cases r with
  | ok ts => exact Scanned.blank hk hblank h
  | error s =>
    obtain ⟨n, ts, hscanned, hstray⟩ := h
    exact ⟨n, ts, hscanned.blank hk hblank, hstray⟩

theorem forall_of_drop {front rest : List Char} {P : Char → Prop}
    (hdrop : text.drop k = front ++ rest) (hfront : ∀ d ∈ front, P d) (i : Nat) (d : Char)
    (hki : k ≤ i) (hi : i < k + front.length) (hd : text[i]? = some d) : P d := by
  obtain ⟨j, rfl⟩ := Nat.exists_eq_add_of_le hki
  rw [← List.getElem?_drop, hdrop, List.getElem?_append_left (by omega)] at hd
  exact hfront d (List.mem_of_getElem? hd)

theorem getElem?_of_drop {front rest : List Char} (hdrop : text.drop k = front ++ rest) :
    text[k + front.length]? = rest.head? := by
  rw [← List.getElem?_drop, hdrop, List.getElem?_append_right (Nat.le_refl _), Nat.sub_self,
    List.head?_eq_getElem?]

theorem Scanned.comment {c : Char} {cs : List Char} (hdrop : text.drop k = c :: cs)
    (hcomment : StartsComment (c :: cs)) :
    Scanned line text k (k + (1 + run (· != '\n') cs)) [] := by
  have hsplit : text.drop k = (c :: cs.takeWhile (· != '\n')) ++ cs.dropWhile (· != '\n') := by
    rw [hdrop, List.cons_append, List.takeWhile_append_dropWhile]
  have hlength : (c :: cs.takeWhile (· != '\n')).length = 1 + run (· != '\n') cs :=
    Nat.add_comm _ 1
  have hunbroken : ∀ d ∈ c :: cs.takeWhile (· != '\n'), d ≠ '\n' := by
    refine List.forall_mem_cons.mpr ⟨?_, fun d hd => by simpa using List.mem_takeWhile_imp hd⟩
    rcases hcomment with ⟨_, he⟩ | ⟨_, he⟩ <;> cases he <;> decide
  rw [← hlength]
  refine ⟨by simp, .nil, k, Nat.le_refl k, Nat.le_add_right _ _, by simp,
    fun i c hk hm => by omega, fun _ => ⟨hdrop ▸ hcomment, fun i hki hi hbreak => ?_, fun d hd => ?_⟩⟩
  · exact forall_of_drop hsplit hunbroken i '\n' hki hi hbreak rfl
  · rw [getElem?_of_drop hsplit] at hd
    obtain ⟨rest, hrest⟩ := List.head?_eq_some_iff.mp hd
    have hstops := stops_dropWhile (· != '\n') cs
    rw [hrest] at hstops
    simpa [Stops] using hstops

theorem ScannedAs.stuck {c : Char} {cs : List Char} {j : Nat} (hdrop : text.drop k = c :: cs)
    (hstuck : NothingStarts (c :: cs)) (h : Scanned line text j k []) :
    ScannedAs line text j (.error ⟨c, k + 1⟩) := by
  have hfront : text.drop k = [] ++ c :: cs := hdrop
  have hget : text[k]? = some c := getElem?_of_drop hfront
  exact ⟨k, [], h, rfl, hget, hdrop ▸ hstuck⟩

theorem ScannedAs.cons {r : Except Stray (List Token)} (hk : k < k')
    (ht : t.StandsAt line text k k') (h : ScannedAs line text k' r) :
    ScannedAs line text k (r.map (t :: ·)) := by
  cases r with
  | ok ts => exact Scanned.cons hk ht h
  | error s =>
    obtain ⟨n, ts, hscanned, hstray⟩ := h
    exact ⟨n, t :: ts, hscanned.cons hk ht, hstray⟩

/-! ## The reader -/

section
variable {column : Int} {c : Char} {cs : List Char}

theorem tokensFrom_none (h : lexeme? c cs = none) :
    tokensFrom line column (c :: cs) = .error ⟨c, column⟩ := by
  rw [tokensFrom, h]

theorem tokensFrom_skip {kind : LexemeKind} (h : lexeme? c cs = some (kind, n))
    (hkind : ∀ k, kind ≠ .token k) :
    tokensFrom line column (c :: cs) = tokensFrom line (column + 1 + n) (cs.drop n) := by
  rw [tokensFrom, h]
  dsimp only
  cases tokensFrom line (column + 1 + n) (cs.drop n) with
  | error s => rfl
  | ok ts =>
    cases kind with
    | token k => exact absurd rfl (hkind k)
    | _ => rfl

theorem tokensFrom_keep {kind : TokenKind} (h : lexeme? c cs = some (.token kind, n)) :
    tokensFrom line column (c :: cs) = (tokensFrom line (column + 1 + n) (cs.drop n)).map
      (⟨kind, String.ofList (c :: cs.take n), line, column⟩ :: ·) := by
  rw [tokensFrom, h]
  dsimp only
  cases tokensFrom line (column + 1 + n) (cs.drop n) <;> rfl

end

theorem standsAt_of_lexeme {kind : TokenKind} {c : Char} {cs : List Char}
    (hdrop : text.drop k = c :: cs) (h : lexeme? c cs = some (.token kind, n)) :
    Token.StandsAt ⟨kind, String.ofList (c :: cs.take n), line, k + 1⟩ line text k
      (k + (1 + n)) := by
  have hlength : (c :: cs.take n).length = 1 + n := by
    rw [List.length_cons, List.length_take_of_le (lexeme?_le h), Nat.add_comm]
  refine ⟨rfl, rfl, ?_, ?_, ?_⟩
  · rw [Token.endColumn, String.length_ofList, hlength]
    push_cast
    omega
  · rw [String.toList_ofList, List.extract_eq_take_drop, hdrop, Nat.add_sub_cancel_left,
      Nat.add_comm, List.take_succ_cons]
  · rw [String.toList_ofList, hdrop]
    exact lexeme?_token h

theorem drop_of_drop {c : Char} {cs : List Char} (hdrop : text.drop k = c :: cs) (n : Nat) :
    text.drop (k + (1 + n)) = cs.drop n := by
  rw [← List.drop_drop, hdrop, Nat.add_comm, List.drop_succ_cons]

theorem isSpace_of_drop {c : Char} {cs : List Char} (hdrop : text.drop k = c :: cs)
    (hc : isSpace c = true) (i : Nat) (d : Char) (hki : k ≤ i) (hi : i < k + (1 + run isSpace cs))
    (hd : text[i]? = some d) : isSpace d = true := by
  have hsplit : text.drop k = (c :: cs.takeWhile isSpace) ++ cs.dropWhile isSpace := by
    rw [hdrop, List.cons_append, List.takeWhile_append_dropWhile]
  have hblank : ∀ d ∈ c :: cs.takeWhile isSpace, isSpace d = true :=
    List.forall_mem_cons.mpr ⟨hc, fun d hd => List.mem_takeWhile_imp hd⟩
  refine forall_of_drop hsplit hblank i d hki ?_ hd
  exact Nat.lt_of_lt_of_eq hi (congrArg (k + ·) (Nat.add_comm 1 _))

/-- Behind a comment the line is over, or there is a line break, at which nothing starts. -/
theorem scannedAs_comment (line column : Int) {c : Char} {cs : List Char} (hk : k ≤ text.length)
    (hdrop : text.drop k = c :: cs) (hcomment : StartsComment (c :: cs))
    (hcolumn : column = ((k + (1 + run (· != '\n') cs) : Nat) : Int) + 1) :
    ScannedAs line text k (tokensFrom line column (cs.drop (run (· != '\n') cs))) := by
  have hdone : Scanned line text k _ [] := .comment hdrop hcomment
  have hrest := drop_of_drop hdrop (run (· != '\n') cs)
  have hlength : text.length - k = cs.length + 1 := by
    rw [← List.length_drop, hdrop, List.length_cons]
  have hrun := run_le (· != '\n') cs
  rw [drop_run] at hrest ⊢
  cases hbreak : cs.dropWhile (· != '\n') with
  | nil =>
    rw [hbreak, List.drop_eq_nil_iff] at hrest
    rw [show k + (1 + run (· != '\n') cs) = text.length by omega] at hdone
    rw [tokensFrom]
    exact hdone
  | cons d rest =>
    have hstops := stops_dropWhile (· != '\n') cs
    rw [hbreak] at hstops hrest
    obtain rfl : d = '\n' := by simpa [Stops] using hstops
    rw [tokensFrom_none rfl, hcolumn]
    exact .stuck hrest (lexeme?_none rfl) hdone

/-- The reader scans a line from any character, to the end or as far as it can be scanned. -/
theorem tokensFrom_scanned (line : Int) (text : List Char) (hk : k ≤ text.length) :
    ScannedAs line text k (tokensFrom line (k + 1) (text.drop k)) := by
  induction hn : text.length - k using Nat.strong_induction_on generalizing k with
  | _ n ih =>
    cases hdrop : text.drop k with
    | nil =>
      obtain rfl : k = text.length := Nat.le_antisymm hk (List.drop_eq_nil_iff.mp hdrop)
      rw [tokensFrom]
      exact Scanned.nil line text text.length
    | cons c cs =>
      cases hlex : lexeme? c cs with
      | none =>
        rw [tokensFrom_none hlex]
        exact .stuck hdrop (lexeme?_none hlex) (.nil line text k)
      | some x =>
        obtain ⟨kind, m⟩ := x
        have hm := lexeme?_le hlex
        have hlength : text.length - k = cs.length + 1 := by
          rw [← List.length_drop, hdrop, List.length_cons]
        have hcolumn : (k : Int) + 1 + 1 + m = ((k + (1 + m) : Nat) : Int) + 1 := by
          push_cast
          omega
        have hscanned := ih (text.length - (k + (1 + m))) (by omega) (k := k + (1 + m)) (by omega) rfl
        rw [drop_of_drop hdrop, ← hcolumn] at hscanned
        cases kind with
        | blank =>
          obtain ⟨hc, rfl⟩ := lexeme?_blank hlex
          rw [tokensFrom_skip hlex fun _ => LexemeKind.noConfusion]
          exact hscanned.blank (Nat.le_add_right _ _) (isSpace_of_drop hdrop hc)
        | comment =>
          obtain ⟨hcomment, rfl⟩ := lexeme?_comment hlex
          rw [tokensFrom_skip hlex fun _ => LexemeKind.noConfusion]
          exact scannedAs_comment line _ hk hdrop hcomment hcolumn
        | token kind =>
          rw [tokensFrom_keep hlex]
          exact hscanned.cons (by omega) (standsAt_of_lexeme hdrop hlex)

/-- A sharp right behind a word would belong to it, unless the word ends in an octave. -/
theorem Token.StandsAt.not_sharp {start stop : Nat} (h : t.StandsAt line text start stop)
    (hkind : t.kind = .word) (hplain : '-' ∉ t.text.toList) : text[stop]? ≠ some '#' := by
  intro hsharp
  have hstop : stop = start + t.text.toList.length := by
    have hcolumn := h.endColumn
    rw [Token.endColumn, h.column, ← String.length_toList] at hcolumn
    omega
  obtain ⟨rest, hrest⟩ := h.longest.starts
  have hnext : rest.head? = some '#' := by
    rw [← getElem?_of_drop hrest.symm, ← hstop]
    exact hsharp
  obtain ⟨more, rfl⟩ := List.head?_eq_some_iff.mp hnext
  have hlex := h.longest.lexical
  rw [hkind] at hlex
  have hlonger : Lexical .word (t.text.toList ++ ['#']) := by
    generalize t.text.toList = token at hlex hplain
    cases hlex with
    | @word c cs hc hcs =>
      have hsharped : ∀ d ∈ cs ++ ['#'], isWordChar d = true :=
        List.forall_mem_append.mpr ⟨hcs, List.forall_mem_singleton.mpr (by decide)⟩
      exact .word hc hsharped
    | lowWord => simp at hplain
  have hle := (h.longest.longest _ _ hlonger ⟨more, by rw [← hrest]; simp⟩).2
  simp at hle

/-- **Tokens are the longest lexemes, and nothing is lost.** A line is cut into tokens that stand at
their columns, one after another, each the longest integer, word or sign that starts there. Whatever
is in none of them is a blank or belongs to a comment behind them all that starts with a number sign
or two slashes; a number sign right behind a plain word is part of it. If a line cannot be cut, the
stray character is the first at which no blank, comment or token starts, the line having been cut so
up to there. -/
theorem tokens_are_longest (line : Int) (text : List Char) :
    (∀ ts, tokens line text = .ok ts → Scanned line text 0 text.length ts ∧
      ∀ t ∈ ts, ∀ start stop, t.StandsAt line text start stop → t.kind = .word →
        '-' ∉ t.text.toList → text[stop]? ≠ some '#') ∧
    ∀ s, tokens line text = .error s → ∃ n ts, Scanned line text 0 n ts ∧ s.column = n + 1 ∧
      text[n]? = some s.char ∧ NothingStarts (text.drop n) := by
  have hscanned := tokensFrom_scanned line text (Nat.zero_le text.length)
  rw [List.drop_zero] at hscanned
  refine ⟨fun ts hts => ?_, fun s hs => ?_⟩
  · rw [show tokensFrom line ((0 : Nat) + 1) text = .ok ts from hts] at hscanned
    exact ⟨hscanned, fun t _ start stop h => h.not_sharp⟩
  · rwa [show tokensFrom line ((0 : Nat) + 1) text = .error s from hs] at hscanned

/-- A low word, a negative number, a pitch with a sharp, a sign and a comment with a sharp. -/
def sharpLine : List Char := "a-1 -2c#4,//#".toList

def strayLine : List Char := "c4#d -x".toList

theorem tokens_are_longest_sharp :
    (tokens 3 sharpLine = .ok [⟨.word, "a-1", 3, 1⟩, ⟨.int, "-2", 3, 5⟩, ⟨.word, "c#4", 3, 7⟩,
        ⟨.punct, ",", 3, 10⟩] ∧
      Scanned 3 sharpLine 0 13 [⟨.word, "a-1", 3, 1⟩, ⟨.int, "-2", 3, 5⟩, ⟨.word, "c#4", 3, 7⟩,
        ⟨.punct, ",", 3, 10⟩]) ∧
    tokens 3 strayLine = .error ⟨'-', 6⟩ ∧ NothingStarts (strayLine.drop 5) := by
  have hsharp : tokens 3 sharpLine = .ok [⟨.word, "a-1", 3, 1⟩, ⟨.int, "-2", 3, 5⟩,
      ⟨.word, "c#4", 3, 7⟩, ⟨.punct, ",", 3, 10⟩] := by cbv
  have hstray : tokens 3 strayLine = .error ⟨'-', 6⟩ := by cbv
  obtain ⟨n, ts, -, hcolumn, -, hstuck⟩ := (tokens_are_longest 3 strayLine).2 _ hstray
  obtain rfl : n = 5 := by
    change (6 : Int) = n + 1 at hcolumn
    omega
  exact ⟨⟨hsharp, ((tokens_are_longest 3 sharpLine).1 _ hsharp).1⟩, hstray, hstuck⟩

end

end Ostinato.Source
