import Ostinato.Program
import Ostinato.Proofs.Lexing
import Ostinato.Proofs.Reading
import Ostinato.Source.Tree

/-!
# Printed instructions read back

The disassembly writes an instruction as source text would. `Statement.Printable` is what the parts of
an instruction have to be for that, numbers that are short enough to be converted among them, and `text_reads` says that the text of such an instruction is a
sentence that means the instruction: up to its place in the source, and up to the target of a jump,
which is written behind an arrow and is no source text.
-/

namespace Ostinato

def Statement.placed (pos : Pos) : Statement → Statement
  | .tempo t => .tempo { t with pos := pos }
  | .send s => .send { s with pos := pos }
  | .looseSend s => .looseSend { s with pos := pos }
  | .wait w => .wait { w with pos := pos }
  | .jump j => .jump { j with pos := pos }
  | .label name body _ => .label name body pos
  | .loop count body _ => .loop count body pos
  | .play p => .play { p with pos := pos }
  | .setting s => .setting { s with pos := pos }

/-- A statement without its place in the source. -/
def Statement.unplaced (s : Statement) : Statement := s.placed {}

/-- A statement as it was before it was linked. -/
def Statement.untargeted : Statement → Statement
  | .jump j => .jump { j with target := none }
  | s => s

/-- An instruction that can be written as source text. -/
def Statement.Printable : Statement → Prop
  | .tempo t => t.InRange ∧ Text.IsShort t.bpm ∧ Text.IsShort t.ticksPerBeat
  | .send s => s.InRange ∧ ∀ o, s.output = some o → Source.isIdentifier o = true
  | .wait w => w.InRange ∧ Text.IsShort w.amount
  | .jump j => Source.isIdentifier j.label = true ∧
      (∀ n, j.count = some n → 0 ≤ n ∧ Text.IsShort n) ∧ ∃ t : Nat, j.target = some (t : Int)
  | _ => False

/-! ## Words -/

/-- What a pitch's name is checked for. -/
def Pitch.isSpelled (note : Int) : Bool :=
  match Pitch.name note with
  | .ok text =>
    (match Pitch.parse text with
      | .ok n => n == note
      | .error _ => false) && Source.isWord text.toList && text.toList.all Source.isInk
  | .error _ => false

theorem Pitch.isSpelled_of_isNote {n : Int} (h : IsNote n) : Pitch.isSpelled n = true := by
  have hall : ∀ k < 128, Pitch.isSpelled (k : Nat) = true := by decide +kernel
  obtain ⟨k, rfl⟩ := Int.eq_ofNat_of_zero_le h.1
  apply hall
  have : (k : Int) ≤ 127 := h.2
  omega

/-- The name of a note is a word that reads as the note. -/
theorem Pitch.name_ok {n : Int} (h : IsNote n) : ∃ text, Pitch.name n = .ok text ∧
    Pitch.Literal text.toList n ∧ text.toList.countP Text.isDigit ≤ Text.digitLimit ∧
    Source.isWord text.toList = true ∧ text.toList.all Source.isInk = true := by
  have hspelled := Pitch.isSpelled_of_isNote h
  unfold Pitch.isSpelled at hspelled
  split at hspelled
  · rename_i text hname
    split at hspelled
    · rename_i m hparse
      simp only [Bool.and_eq_true, beq_iff_eq] at hspelled
      obtain ⟨⟨rfl, hword⟩, hink⟩ := hspelled
      obtain ⟨hliteral, hdigits, -⟩ := Pitch.parse_eq_ok.mp hparse
      exact ⟨text, hname, hliteral, hdigits, hword, hink⟩
    · simp at hspelled
  · cases hspelled

theorem TimeUnit.ofWord?_name {u : TimeUnit} (h : ∀ name, u ≠ .unknown name) :
    TimeUnit.ofWord? (Source.lower u.name) = some u ∧ Source.isWord u.name.toList = true ∧
      u.name.toList.all Source.isInk = true := by
  cases u with
  | unknown name => exact absurd rfl (h name)
  | _ => decide +kernel

namespace Source

theorem toList_repr_natCast (n : Nat) : (n : Int).repr.toList = Nat.toDigits 10 n :=
  Nat.toList_repr

section
variable {line column : Int}

theorem writes_number {n : Nat} (h : Text.IsShort n) :
    Token.Writes Text.digitLimit ⟨.int, toString n, line, column⟩ n := by
  have htext : (toString n).toList = Nat.toDigits 10 n := Nat.toList_repr
  have hlt : (n : Int) < 10 ^ Text.digitLimit := h
  have hlength : (Nat.toDigits 10 n).length ≤ Text.digitLimit :=
    Nat.toDigits_length 10 n Text.digitLimit (by decide) (by exact_mod_cast hlt)
  have hminus : ∀ ds, Nat.toDigits 10 n ≠ '-' :: ds := fun ds hds =>
    absurd (Text.isDigit_toDigits n '-' (by simp [hds])) (by decide)
  refine ⟨rfl, ?_, ?_⟩
  · unfold Token.digits
    rw [htext]
    split
    · exact absurd ‹_› (hminus _)
    · exact hlength
  · unfold Token.value
    rw [htext]
    split
    · exact absurd ‹_› (hminus _)
    · rw [Text.number_toDigits]

theorem says_self {word : String} (h : upper word = word) :
    Token.Says ⟨.word, word, line, column⟩ word := ⟨rfl, h⟩

theorem says_r : Token.Says ⟨.word, "r", line, column⟩ "R" := by
  have hupper : upper "r" = "R" := by decide +kernel
  exact ⟨rfl, hupper⟩

/-! ## Instructions -/

/-- Some characters are a line, flush left, that says what `l` says at its number. -/
structure Says (cs : List Char) (l : Int → Line) : Prop where
  flush : Stops isSpace cs
  sentence : ∀ line, ∃ ts, Cuts line 1 cs ts ∧ Sentence Text.digitLimit ts (l line)

/-- The line of a statement that stands by itself. -/
def plainAt (s : Statement) (line : Int) : Line := .plain (s.placed ⟨line, 1⟩)

theorem says_tempo {t : Tempo} (h : t.InRange) (hbpm : Text.IsShort t.bpm)
    (hticks : Text.IsShort t.ticksPerBeat) :
    ∃ text, Program.instructionText (.tempo t) = .ok text ∧ Says text.toList (plainAt (.tempo t)) := by
  obtain ⟨bpm, ticks, pos⟩ := t
  obtain ⟨hb, hn⟩ := h
  obtain ⟨b, rfl⟩ := Int.eq_ofNat_of_zero_le (le_of_lt hb)
  obtain ⟨n, rfl⟩ := Int.eq_ofNat_of_zero_le (le_of_lt hn)
  have htext : ("SETBPM " ++ toString (b : Int) ++ ", " ++ toString (n : Int)).toList =
      "SETBPM".toList ++
        ' ' :: (Nat.toDigits 10 b ++ ',' :: ' ' :: (Nat.toDigits 10 n ++ [])) := by
    simp [toList_repr_natCast]
  refine ⟨_, rfl, ?_⟩
  rw [htext]
  refine ⟨rfl, fun line => ?_⟩
  exact ⟨_, .word (by decide) (by decide) rfl <| .gap (stops_number b _) <| .number rfl <|
      .sign (by simp) <| .gap (stops_number n _) <| .number trivial .nil,
    .tempo (says_self (by decide +kernel)) (writes_number hbpm) hb rfl (writes_number hticks) hn⟩

theorem says_wait {w : Wait} (h : w.InRange) (hamount : Text.IsShort w.amount) :
    ∃ text, Program.instructionText (.wait w) = .ok text ∧ Says text.toList (plainAt (.wait w)) := by
  obtain ⟨amount, unit, pos⟩ := w
  obtain ⟨h0, hunit⟩ := h
  obtain ⟨n, rfl⟩ := Int.eq_ofNat_of_zero_le h0
  obtain ⟨hword, hisWord, hink⟩ := TimeUnit.ofWord?_name hunit
  have htext : ("WAIT " ++ toString (n : Int) ++ " " ++ unit.name).toList =
      "WAIT".toList ++ ' ' :: (Nat.toDigits 10 n ++ ' ' :: (unit.name.toList ++ [])) := by
    simp [toList_repr_natCast]
  refine ⟨_, rfl, ?_⟩
  rw [htext]
  refine ⟨rfl, fun line => ?_⟩
  exact ⟨_, .word (by decide) (by decide) rfl <| .gap (stops_number n _) <| .number rfl <|
      .gap (stops_word hisWord _) <| .word hisWord hink trivial .nil,
    .wait (says_self (by decide +kernel)) (writes_number hamount) h0 ⟨rfl, hword⟩⟩

/-- The clause of an output, as it ends the text of a note. -/
def outputText : Option String → String
  | none => ""
  | some name => ", OUTPUT = " ++ name

theorem cuts_output {o : Option String} (h : ∀ name, o = some name → isIdentifier name = true)
    (line column : Int) : Stops Text.isDigit (outputText o).toList ∧
      ∃ ts, Cuts line column (outputText o).toList ts ∧ OutputAt o ts := by
  cases o with
  | none => exact ⟨trivial, [], .nil, .default⟩
  | some name =>
    have hname := h name rfl
    obtain ⟨hword, hink⟩ := isWord_of_isIdentifier hname
    have htext : (outputText (some name)).toList =
        ',' :: ' ' :: ("OUTPUT".toList ++ ' ' :: '=' :: ' ' :: (name.toList ++ [])) := by
      simp [outputText]
    rw [htext]
    exact ⟨rfl, _, .sign (by simp) <| .gap rfl <| .word (by decide) (by decide) rfl <|
        .gap rfl <| .sign (by simp) <| .gap (stops_word hword _) <| .word hword hink trivial .nil,
      .named rfl (says_self (by decide +kernel)) rfl ⟨rfl, hname, rfl⟩⟩

theorem says_send {s : Send} (h : s.InRange)
    (ho : ∀ o, s.output = some o → isIdentifier o = true) :
    ∃ text, Program.instructionText (.send s) = .ok text ∧ Says text.toList (plainAt (.send s)) := by
  obtain ⟨on, channel, pitch, velocity, output, pos⟩ := s
  obtain ⟨⟨hc0, hc⟩, hpitch, hv0, hv⟩ := h
  obtain ⟨c, rfl⟩ := Int.eq_ofNat_of_zero_le hc0
  obtain ⟨v, rfl⟩ := Int.eq_ofNat_of_zero_le hv0
  obtain ⟨note, hnote, hliteral, hdigits, hword, hink⟩ := Pitch.name_ok hpitch
  have hcShort : Text.IsShort c := Text.isShort_of_lt (hc.trans (by decide))
  have hvShort : Text.IsShort v := Text.isShort_of_lt (hv.trans_lt (by decide))
  have hkind : ∃ kind : String, kind = (if on then "NOTEON" else "NOTEOFF") ∧
      isWord kind.toList = true ∧ kind.toList.all isInk = true ∧ upper kind = kind := by
    cases on <;> exact ⟨_, rfl, by decide, by decide, by decide +kernel⟩
  obtain ⟨kind, hkind, hkindWord, hkindInk, hkindUpper⟩ := hkind
  have hok : Program.instructionText (.send ⟨on, c, pitch, v, output, pos⟩) =
      .ok ("SEND " ++ kind ++ " " ++ toString (c : Int) ++ "r, " ++ note ++ ", " ++
        toString (v : Int) ++ outputText output) := by
    rw [hkind]
    simp only [Program.instructionText, Program.noteText, hnote]
    cases output <;> rfl
  have htext : ("SEND " ++ kind ++ " " ++ toString (c : Int) ++ "r, " ++ note ++ ", " ++
      toString (v : Int) ++ outputText output).toList =
      "SEND".toList ++ ' ' :: (kind.toList ++ ' ' :: (Nat.toDigits 10 c ++ ("r".toList ++
        ',' :: ' ' :: (note.toList ++ ',' :: ' ' :: (Nat.toDigits 10 v ++
          (outputText output).toList))))) := by
    simp [toList_repr_natCast]
  refine ⟨_, hok, ?_⟩
  rw [htext]
  refine ⟨rfl, fun line => ?_⟩
  obtain ⟨hstop, -⟩ := cuts_output ho line 0
  choose tail htail using fun column => (cuts_output ho line column).2
  have hlength : (toString c).length = (Nat.toDigits 10 c).length := by
    rw [← String.length_toList]
    exact congrArg List.length Nat.toList_repr
  refine ⟨_, .word (by decide) (by decide) rfl <| .gap (stops_word hkindWord _) <|
    .word hkindWord hkindInk rfl <| .gap (stops_number c _) <| .number rfl <|
    .word (by decide) (by decide) rfl <| .sign (by simp) <| .gap (stops_word hword _) <|
    .word hword hink rfl <| .sign (by simp) <| .gap (stops_number v _) <| .number hstop <|
    (htail _).1, ?_⟩
  refine .send (says_self (by decide +kernel)) ?_ (.raw (writes_number hcShort) hc0 hc says_r ?_) rfl
    (.literal rfl hliteral hdigits hpitch.1 hpitch.2) rfl (writes_number hvShort) hv0 hv (htail _).2
  · rw [← hkind]
    exact says_self hkindUpper
  · simp only [Token.endColumn, hlength]

theorem says_jump {j : Jump} (hlabel : isIdentifier j.label = true)
    (hcount : ∀ n, j.count = some n → 0 ≤ n ∧ Text.IsShort n) {t : Nat} (ht : j.target = some (t : Int)) :
    ∃ text cs, Program.instructionText (.jump j) = .ok text ∧
      text.toList = cs ++ "  -> ".toList ++ Nat.toDigits 10 t ∧
      Says cs (plainAt (.jump { j with target := none })) := by
  obtain ⟨label, count, target, pos⟩ := j
  dsimp only at hlabel hcount ht ⊢
  subst ht
  obtain ⟨hword, hink⟩ := isWord_of_isIdentifier hlabel
  have htarget : (Describe.number (some (t : Int))).toList = Nat.toDigits 10 t :=
    toList_repr_natCast t
  cases count with
  | none =>
    refine ⟨_, "JUMP".toList ++ ' ' :: (label.toList ++ []), rfl, ?_, rfl, fun line => ?_⟩
    · simp [htarget]
    · exact ⟨_, .word (by decide) (by decide) rfl <| .gap (stops_word hword _) <|
          .word hword hink trivial .nil,
        .jump (says_self (by decide +kernel)) ⟨rfl, hlabel, rfl⟩ .none⟩
  | some n =>
    obtain ⟨h0, hshort⟩ := hcount n rfl
    obtain ⟨k, rfl⟩ := Int.eq_ofNat_of_zero_le h0
    refine ⟨_, "JUMP".toList ++ ' ' :: (label.toList ++ ' ' :: (Nat.toDigits 10 k ++ [])), rfl, ?_,
      rfl, fun line => ?_⟩
    · simp [htarget, toList_repr_natCast]
    · exact ⟨_, .word (by decide) (by decide) rfl <| .gap (stops_word hword _) <|
          .word hword hink rfl <| .gap (stops_number k _) <| .number trivial .nil,
        .jump (says_self (by decide +kernel)) ⟨rfl, hlabel, rfl⟩
          (.some (writes_number hshort) h0)⟩

theorem says_label {name : String} (hname : isIdentifier name = true) :
    Says ("LABEL ".toList ++ name.toList ++ [':']) fun line => .label name ⟨line, 7⟩ := by
  obtain ⟨hword, hink⟩ := isWord_of_isIdentifier hname
  have htext : "LABEL ".toList ++ name.toList ++ [':'] =
      "LABEL".toList ++ ' ' :: (name.toList ++ ':' :: []) := by
    simp
  rw [htext]
  refine ⟨rfl, fun line => ?_⟩
  exact ⟨_, .word (by decide) (by decide) rfl <| .gap (stops_word hword _) <|
      .word hword hink rfl <| .sign (by simp) .nil,
    .label (says_self (by decide +kernel)) ⟨rfl, hname, rfl⟩ rfl⟩

/-- **An instruction's text is source text**, up to the arrow of a jump. -/
theorem text_reads {s : Statement} (h : s.Printable) :
    ∃ text cs rest, Program.instructionText s = .ok text ∧ text.toList = cs ++ rest ∧
      (rest = [] ∨ ∃ t : Nat, rest = "  -> ".toList ++ Nat.toDigits 10 t) ∧
      Says cs (plainAt s.untargeted) := by
  cases s with
  | tempo t =>
    obtain ⟨text, htext, hreads⟩ := says_tempo h.1 h.2.1 h.2.2
    exact ⟨text, _, [], htext, by simp, .inl rfl, hreads⟩
  | send s =>
    obtain ⟨text, htext, hreads⟩ := says_send h.1 h.2
    exact ⟨text, _, [], htext, by simp, .inl rfl, hreads⟩
  | wait w =>
    obtain ⟨text, htext, hreads⟩ := says_wait h.1 h.2
    exact ⟨text, _, [], htext, by simp, .inl rfl, hreads⟩
  | jump j =>
    obtain ⟨hlabel, hcount, t, ht⟩ := h
    obtain ⟨text, cs, htext, hcs, hreads⟩ := says_jump hlabel hcount ht
    exact ⟨text, cs, _, htext, by rw [hcs, List.append_assoc], .inr ⟨t, rfl⟩, hreads⟩
  | _ => exact h.elim

section
variable {cs : List Char} {l : Int → Line} (h : Says cs l)
include h

theorem Says.readLine (number : Int) : readLine number cs = .ok (some (l number)) := by
  obtain ⟨ts, hcuts, hsentence⟩ := h.sentence number
  have hline := line_of_sentence hsentence
  unfold Source.readLine tokens
  rw [hcuts.tokens]
  cases ts with
  | nil => cases hsentence
  | cons t ts => simp only [hline]

theorem Says.printed : ∀ c ∈ cs, isPrinted c = true := by
  obtain ⟨ts, hcuts, -⟩ := h.sentence 1
  exact hcuts.printed

theorem Says.ne_nil : cs ≠ [] := by
  rintro rfl
  obtain ⟨ts, hcuts, hsentence⟩ := h.sentence 1
  have htokens := hcuts.tokens
  rw [tokensFrom] at htokens
  cases htokens
  cases hsentence

theorem Says.indent : indent cs = 0 := by
  have hflush := h.flush
  unfold Source.indent widthFrom
  split
  · cases hflush
  · cases hflush
  · rfl

end

end

end Source

end Ostinato
