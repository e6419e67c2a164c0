import Ostinato.Proofs.Comments
import Ostinato.Proofs.Counters
import Ostinato.Proofs.Lines
import Ostinato.Proofs.Playable
import Ostinato.Proofs.Stepping
import Ostinato.Proofs.Ticking

/-!
# A compiled program never faults

`Sound` is the invariant of a machine that runs a compiled program. It holds when the program is
loaded and every move keeps it, so it holds after every run, and a sound machine has no step that
faults. What is left are numbers that the clock cannot convert, and `Overflows` says which step can
meet one.
-/

namespace Ostinato.Machine

/-- What always holds of a machine that runs a compiled program: the instruction pointer is inside
the program or right behind it, there is one counter for each jump and none besides, no counter is
negative or above the bound of its jump, the clock ticks, and no fault has been recorded. -/
structure Sound (m : Machine) : Prop where
  program : m.program.WellFormed
  pointer : 0 ≤ m.ip ∧ m.ip ≤ m.program.length
  nodup : m.counters.keys.Nodup
  keys : ∀ i, i ∈ m.counters.keys ↔ ∃ j, m.program.at? i = some (.jump j)
  counts : ∀ i j n, m.program.at? i = some (.jump j) → m.counters.get? i = some n →
    0 ≤ n ∧ ∀ b, j.count = some b → n ≤ b
  clock : m.clock.Ticking
  unfaulted : m.state ≠ .faulted ∧ m.fault = none

/-- How the next step can fail to convert a number. A tempo or a wait can have an integer in it that
is too large for binary64, and a wait in clock time can cover infinitely many ticks. -/
inductive Overflows (m : Machine) : Overflow → Prop where
  | wait {w : Wait} : m.instruction? = some (.wait w) → Overflows m .integerTooLarge
  | clockWait {w : Wait} : m.instruction? = some (.wait w) → w.unit.clockSeconds?.isSome →
      Overflows m .infinityToInteger
  | tempo {t : Tempo} : m.instruction? = some (.tempo t) → Overflows m .integerTooLarge

section
variable {m : Machine}

theorem instruction?_eq_some {s : Statement} :
    m.instruction? = some s ↔ m.isFinished = false ∧ m.program.at? m.ip = some s := by
  unfold instruction?
  cases m.isFinished <;> simp

theorem next_pointer {s : Statement} (hi : m.instruction? = some s) :
    0 ≤ m.ip + 1 ∧ m.ip + 1 ≤ m.program.length := by
  have := Program.lt_of_at? (instruction?_eq_some.mp hi).2
  omega

theorem load_clock (p : Program) : (load p).clock = Clock.initial := by rw [load]

theorem load_sound {p : Program} (hp : p.WellFormed) : (load p).Sound where
  program := hp
  pointer := ⟨by simp [load], by simp [load]⟩
  nodup := by
    rw [load, Counters.keys_start hp.indices_nodup]
    exact hp.indices_nodup
  keys i := by
    rw [load, Counters.keys_start hp.indices_nodup]
    exact hp.mem_indices
  counts i j n hj hn := by
    have hget : (Counters.start p.jumpSites).get? i = some 0 :=
      Counters.get?_start (hp.mem_indices.mpr ⟨j, hj⟩)
    have hn0 : 0 = n := by
      rw [load, hget] at hn
      exact Option.some.inj hn
    obtain ⟨-, hb⟩ := hp.playable _ (Program.mem_of_at? hj)
    exact ⟨by omega, fun b hcount => by have := hb b hcount; omega⟩
  clock := by
    rw [load_clock]
    exact Clock.initial_ticking
  unfaulted := ⟨by simp [load], rfl⟩

namespace Sound
variable (h : m.Sound)
include h

theorem counter {i : Int} {j : Jump} (hj : m.program.at? i = some (.jump j)) :
    ∃ n, m.counters.get? i = some n ∧ 0 ≤ n ∧ ∀ b, j.count = some b → n ≤ b := by
  obtain ⟨n, hn⟩ := Counters.mem_keys_iff.mp ((h.keys i).mpr ⟨j, hj⟩)
  exact ⟨n, hn, h.counts i j n hj hn⟩

theorem playable {s : Statement} (hi : m.instruction? = some s) : s.Playable m.program.length :=
  h.program.playable s (Program.mem_of_at? (instruction?_eq_some.mp hi).2)

theorem not_lost (he : m.ip ≠ m.program.length) : m.program.at? m.ip ≠ none := by
  obtain ⟨h0, h1⟩ := h.pointer
  obtain ⟨s, hs⟩ := Program.at?_of_lt (p := m.program) h0 (by omega)
  rw [hs]
  simp

/-- Its notes are all of numbers in range. -/
theorem noteOf {s : Statement} {x : Except (FaultCause ⊕ Overflow) Event}
    (hi : m.instruction? = some s) (hx : m.NoteOf s x) :
    (∃ n, s = .send n) ∧ ∃ e, x = .ok e := by
  have hp := h.playable hi
  cases hx with
  | note =>
    obtain ⟨hc, hn, hv⟩ := hp
    unfold IsChannel at hc
    unfold IsNote at hn
    unfold IsVelocity at hv
    rw [event, if_neg (not_not_intro hc), if_neg (not_not_intro hn), if_neg (not_not_intro hv)]
    exact ⟨⟨_, rfl⟩, _, rfl⟩
  | loose => exact hp.elim

/-- Every check that the machine makes is one that the program passes. -/
theorem not_refused {s : Statement} {f : Fault} (hi : m.instruction? = some s) :
    ¬Refusal m s f := by
  intro hr
  have hp := h.playable hi
  cases hr with
  | note he =>
    obtain ⟨-, e, he'⟩ := h.noteOf hi he
    cases he'
  | negativeWait hw =>
    have := hp.1
    omega
  | wait _ hw =>
    obtain ⟨-, ⟨due, hok⟩ | ho | ⟨ho, -⟩⟩ := Clock.advanceWait_ticking h.clock hp
    · rw [hw] at hok
      cases hok
    · rw [hw] at ho
      cases ho
    · rw [hw] at ho
      cases ho
  | tempo ht =>
    obtain ⟨-, hok | ho⟩ := Clock.setTempo_ticking h.clock hp.1 hp.2
    · rw [ht] at hok
      cases hok
    · rw [ht] at ho
      cases ho
  | target ht =>
    obtain ⟨⟨t, htarget, hr⟩, -⟩ := hp
    exact ht t htarget hr
  | @counter j _ hc =>
    obtain ⟨n, hn, hn0, -⟩ := h.counter (instruction?_eq_some.mp hi).2
    by_cases ho : Counters.Open j.count n
    · rw [Counters.take_open hn hn0 ho] at hc
      cases hc
    · rw [Counters.take_closed hn hn0 ho] at hc
      cases hc
  | unknown hnote hwait hjump htempo =>
    cases s with
    | send s => exact hnote _ .note
    | wait w => exact hwait w rfl
    | jump j => exact hjump j rfl
    | tempo t => exact htempo t rfl
    | _ => exact hp

theorem stepped_ne_fault {m' : Machine} {out : Step} (hs : Stepped m m' out) (f : Fault) :
    out ≠ .fault f := by
  cases hs with
  | lost _ he hn => exact absurd hn (h.not_lost he)
  | refused hi hr => exact absurd hr (h.not_refused hi)
  | _ => simp

theorem overflows {m' : Machine} {o : Overflow} (hs : Stepped m m' (.overflow o)) :
    Overflows m o := by
  cases hs with
  | broken hi hx =>
    obtain ⟨-, e, he⟩ := h.noteOf hi hx
    cases he
  | waitOverflow hi _ hc =>
    obtain ⟨-, ⟨due, hok⟩ | ho | ⟨ho, hu⟩⟩ := Clock.advanceWait_ticking h.clock (h.playable hi)
    · rw [hc] at hok
      cases hok
    · rw [hc] at ho
      cases ho
      exact .wait hi
    · rw [hc] at ho
      cases ho
      exact .clockWait hi hu
  | tempoOverflow hi hc =>
    have hp := h.playable hi
    obtain ⟨-, hok | ho⟩ := Clock.setTempo_ticking h.clock hp.1 hp.2
    · rw [hc] at hok
      cases hok
    · rw [hc] at ho
      cases ho
      exact .tempo hi

/-- What a sound machine does with its instruction: it goes on to the next one, or stays because of
a number that it cannot convert, or jumps. -/
theorem step_cases {s : Statement} (hi : m.instruction? = some s) :
    (s.isJump = false ∧ ∃ c, m.step.1 = { m.fetched with clock := c }.next) ∨
      (s.isJump = false ∧ ∃ o, m.step.2 = .overflow o) ∨
      ∃ j t cs taken, s = .jump j ∧ j.target = some t ∧
        m.counters.take m.ip j.count = .ok (cs, taken) ∧
        m.step.1 = { m.fetched with counters := cs, ip := if taken then t else m.ip + 1 } := by
  have hs := m.stepped
  have hfault := h.stepped_ne_fault hs
  generalize m.step.1 = m' at hs ⊢
  generalize m.step.2 = out at hs hfault ⊢
  cases hs with
  | finished hf =>
    rw [(instruction?_eq_some.mp hi).1] at hf
    cases hf
  | ended _ hend =>
    have := next_pointer hi
    omega
  | lost | refused => exact absurd rfl (hfault _)
  | sent hi' hx =>
    rw [hi] at hi'
    cases hi'
    obtain ⟨⟨n, rfl⟩, -⟩ := h.noteOf hi hx
    exact .inl ⟨rfl, _, rfl⟩
  | broken hi' hx =>
    obtain ⟨-, e, he⟩ := h.noteOf hi' hx
    cases he
  | waited hi' | tempoSet hi' =>
    rw [hi] at hi'
    cases hi'
    exact .inl ⟨rfl, _, rfl⟩
  | waitOverflow hi' | tempoOverflow hi' =>
    rw [hi] at hi'
    cases hi'
    exact .inr (.inl ⟨rfl, _, rfl⟩)
  | jumped hi' ht _ hc =>
    rw [hi] at hi'
    cases hi'
    exact .inr (.inr ⟨_, _, _, _, rfl, ht, hc, rfl⟩)

theorem update {ip : Int} {state : RunState} {clock : Clock} {executed : Nat}
    (hip : 0 ≤ ip ∧ ip ≤ m.program.length) (hstate : state ≠ .faulted) (hclock : clock.Ticking) :
    Sound { m with ip := ip, state := state, clock := clock, executed := executed } :=
  ⟨h.program, hip, h.nodup, h.keys, h.counts, hclock, hstate, h.unfaulted.2⟩

theorem put {i : Int} {j : Jump} {n : Int} (hj : m.program.at? i = some (.jump j)) (hn : 0 ≤ n)
    (hb : ∀ b, j.count = some b → n ≤ b) : Sound { m with counters := m.counters.put i n } := by
  have hkeys : (m.counters.put i n).keys = m.counters.keys :=
    Counters.keys_put_of_mem n ((h.keys i).mpr ⟨j, hj⟩)
  refine ⟨h.program, h.pointer, ?_, fun k => ?_, fun k j' n' hk hget => ?_, h.clock, h.unfaulted⟩
  · rw [hkeys]
    exact h.nodup
  · rw [hkeys]
    exact h.keys k
  · rw [Counters.get?_put] at hget
    by_cases hi : k = i
    · rw [if_pos hi] at hget
      cases hget
      rw [hi, hj] at hk
      cases hk
      exact ⟨hn, hb⟩
    · rw [if_neg hi] at hget
      exact h.counts k j' n' hk hget

end Sound

/-- The step lemma: whatever a step does, the invariant holds afterwards. -/
theorem Sound.of_stepped (h : m.Sound) {m' : Machine} {out : Step} (hs : Stepped m m' out) :
    m'.Sound := by
  have hip := h.pointer
  cases hs with
  | finished => exact h
  | ended => exact h.update hip (by simp) h.clock
  | lost _ he hn => exact absurd hn (h.not_lost he)
  | sent hi =>
    have hnext := next_pointer hi
    exact h.update hnext (by simp [fetched]) h.clock
  | broken hi hx =>
    obtain ⟨-, e, he⟩ := h.noteOf hi hx
    cases he
  | waited hi _ hc =>
    have hnext := next_pointer hi
    have hclock := (Clock.advanceWait_ticking h.clock (h.playable hi)).1
    rw [hc] at hclock
    exact h.update hnext (by simp [fetched]) hclock
  | waitOverflow hi _ hc =>
    have hclock := (Clock.advanceWait_ticking h.clock (h.playable hi)).1
    rw [hc] at hclock
    exact h.update hip (by simp [fetched]) hclock
  | tempoSet hi hc =>
    have hnext := next_pointer hi
    have hp := h.playable hi
    have hclock := (Clock.setTempo_ticking h.clock hp.1 hp.2).1
    rw [hc] at hclock
    exact h.update hnext (by simp [fetched]) hclock
  | tempoOverflow hi hc =>
    have hp := h.playable hi
    have hclock := (Clock.setTempo_ticking h.clock hp.1 hp.2).1
    rw [hc] at hclock
    exact h.update hip (by simp [fetched]) hclock
  | @jumped j t cs taken hi _ ht hc =>
    have hnext := next_pointer hi
    have hj := (instruction?_eq_some.mp hi).2
    obtain ⟨n, hn, hn0, -⟩ := h.counter hj
    by_cases ho : Counters.Open j.count n
    · rw [Counters.take_open hn hn0 ho] at hc
      cases hc
      have hput := h.put hj (n := n + 1) (by omega) (fun b hb => by have := ho b hb; omega)
      exact hput.update ht (by simp [fetched]) h.clock
    · rw [Counters.take_closed hn hn0 ho] at hc
      cases hc
      exact h.update hnext (by simp [fetched]) h.clock
  | refused hi hr => exact absurd hr (h.not_refused hi)

theorem Sound.cancel (h : m.Sound) : m.cancel.Sound := by
  unfold Machine.cancel
  split
  · exact h
  · exact h.update h.pointer (by simp) h.clock

/-- The run lemma. -/
theorem Sound.after (h : m.Sound) (moves : List Move) : (m.after moves).Sound := by
  refine after_induct (fun m a hm => ?_) h moves
  cases a with
  | step => exact hm.of_stepped m.stepped
  | cancel => exact hm.cancel
  | reset => exact load_sound hm.program

end

/-- **Compiled programs never fault.** Whatever moves a machine that was loaded with one has made, it
is sound, its next step does not fault, and the step fails at all only where a wait or a tempo has
a number that cannot be converted. -/
theorem compile_never_faults {text : String} {name : Option String} {p : Program}
    (h : compile text name = .ok p) (moves : List Move) :
    ((load p).after moves).program = p ∧ ((load p).after moves).Sound ∧
      (∀ f, ((load p).after moves).step.2 ≠ .fault f) ∧
      ∀ o, ((load p).after moves).step.2 = .overflow o → Overflows ((load p).after moves) o := by
  have hsound := (load_sound (compile_wellFormed h)).after moves
  refine ⟨after_program _ moves, hsound, fun f => ?_, fun o ho => ?_⟩
  · exact hsound.stepped_ne_fault (stepped _) f
  · have hs := ((load p).after moves).stepped
    rw [ho] at hs
    exact hsound.overflows hs

theorem compile_never_faults_sample : compile Source.sampleText none = .ok sampleProgram ∧
    ((load sampleProgram).after [.step, .step, .reset, .step, .cancel]).Sound :=
  ⟨compile_sample, (compile_never_faults compile_sample _).2.1⟩

end Ostinato.Machine

namespace Ostinato

/-! ## A wait that covers infinitely many ticks -/

open Source

def ninesLine (n : Nat) : List Char :=
  'W' :: 'A' :: 'I' :: 'T' :: ' ' :: (List.replicate n '9' ++ [' ', 'm'])

def ninesWait (row : Int) (n : Nat) : Wait :=
  ⟨Text.number (List.replicate n '9'), .minutes, ⟨row, 1⟩⟩

theorem number_nines (n : Nat) : Text.number (List.replicate n '9') + 1 = 10 ^ n := by
  have hfold : ∀ a, (List.replicate n '9').foldl
      (fun n c => n * 10 + (Text.digit? c).getD 0) a + 1 = (a + 1) * 10 ^ n := by
    induction n with
    | zero => simp
    | succ n ih =>
      intro a
      have hd : (Text.digit? '9').getD 0 = 9 := by decide
      rw [List.replicate_succ, List.foldl_cons, ih, hd, Nat.pow_succ]
      rw [show a * 10 + 9 + 1 = (a + 1) * 10 by omega, Nat.mul_assoc, Nat.mul_comm 10]
  have h0 := hfold 0
  rwa [Nat.zero_add, Nat.one_mul] at h0

theorem run_nines (n : Nat) : run Text.isDigit (List.replicate n '9' ++ [' ', 'm']) = n := by
  have h9 : Text.isDigit '9' = true := by decide
  have hspace : Text.isDigit ' ' = false := by decide
  rw [run, List.takeWhile_append_of_pos (by simp [List.mem_replicate, h9])]
  simp [hspace]

theorem tokens_ninesLine (row : Int) (n : Nat) : tokens row (ninesLine (n + 1)) =
    .ok [⟨.word, "WAIT", row, 1⟩, ⟨.int, String.ofList (List.replicate (n + 1) '9'), row, 6⟩,
      ⟨.word, "m", row, n + 8⟩] := by
  have hword : ∀ cs, lexeme? 'W' ('A' :: 'I' :: 'T' :: ' ' :: cs) = some (.token .word, 3) :=
    fun _ => rfl
  have hblank : ∀ cs, lexeme? ' ' ('9' :: cs) = some (.blank, 0) := fun _ => rfl
  have hint : ∀ cs, lexeme? '9' cs = some (.token .int, run Text.isDigit cs) := fun _ => rfl
  have hgap : lexeme? ' ' ['m'] = some (.blank, 0) := rfl
  have hunit : lexeme? 'm' [] = some (.token .word, 0) := rfl
  simp only [tokens, ninesLine, List.replicate_succ, List.cons_append, tokensFrom, hword, hblank,
    hint, run_nines, List.drop]
  simp [tokensFrom, hgap, hunit]
  omega

def ninesToken (row : Int) (n : Nat) : Token :=
  ⟨.int, String.ofList (List.replicate n '9'), row, 6⟩

theorem digits_nines (row : Int) (n : Nat) :
    (ninesToken row (n + 1)).digits = List.replicate (n + 1) '9' := by
  simp [ninesToken, Token.digits, List.replicate_succ]

theorem value_nines (row : Int) (n : Nat) :
    (ninesToken row (n + 1)).value = Text.number (List.replicate (n + 1) '9') := by
  simp [ninesToken, Token.value, List.replicate_succ]

theorem number_ninesToken {n : Nat} (row : Int) (hn : n < Text.digitLimit) :
    number (ninesToken row (n + 1)) = .ok (Text.number (List.replicate (n + 1) '9')) := by
  rw [number, digits_nines, List.length_replicate, if_pos (Nat.succ_le_of_lt hn), value_nines]

theorem line_nines {n : Nat} (row column : Int) (hn : n < Text.digitLimit) :
    line [⟨.word, "WAIT", row, 1⟩, ninesToken row (n + 1), ⟨.word, "m", row, column⟩] =
      .ok (.plain (.wait (ninesWait row (n + 1)))) := by
  have hkeyword : Keyword.ofWord? (upper "WAIT") = some .wait := by decide +kernel
  have hunit : TimeUnit.ofWord? (lower "m") = some .minutes := by decide +kernel
  have hkind : (ninesToken row (n + 1)).kind = .int := rfl
  have hnonneg : ¬(Text.number (List.replicate (n + 1) '9') : Int) < 0 := by omega
  simp [line, keyword, word, any, form, plain, waitLine, duration, int, hkeyword, hunit, hkind,
    number_ninesToken row hn, hnonneg, bind, Except.bind, atEnd, Token.pos, ninesWait]

theorem readLine_nines {n : Nat} (row : Int) (hn : n < Text.digitLimit) :
    readLine row (ninesLine (n + 1)) = .ok (some (.plain (.wait (ninesWait row (n + 1))))) := by
  have hline := line_nines row (n + 8) hn
  rw [ninesToken] at hline
  simp only [readLine, tokens_ninesLine, hline]

theorem ninesLine_no_slash (n : Nat) : '/' ∉ ninesLine (n + 1) := by
  simp [ninesLine, List.mem_replicate]

theorem ninesLine_no_break (n : Nat) : ∀ c ∈ ninesLine (n + 1), Text.isLineBreak c = false := by
  simp [ninesLine, List.mem_replicate, Text.isLineBreak]

theorem compile_ninesLine {n : Nat} (hn : n < Text.digitLimit) :
    compile (String.ofList (ninesLine (n + 1))) none =
      .ok { instructions := #[.wait (ninesWait 1 (n + 1))] } := by
  have hslash := ninesLine_no_slash n
  have hparse : parse (String.ofList (ninesLine (n + 1))) none =
      .ok [.wait (ninesWait 1 (n + 1))] := by
    rw [parse, tree, String.toList_ofList, blankComments_eq hslash, opening?,
      openingFrom?_eq_none hslash, Text.lines_last (ninesLine_no_break _),
      if_neg (by simp [ninesLine])]
    simp only [readLines, readLine_nines _ hn]
    rfl
  rw [compile, hparse]
  simp [link, Link.program, Link.emitAll, Link.emit, Link.resolve, Link.State.push]

/-- A number that is itself converted without loss of range need not stay finite as a count of
ticks. -/
theorem ninesLine_overflows : ∃ p, compile (String.ofList (ninesLine 308)) none = .ok p ∧
    (Machine.load p).step.2 = .overflow .infinityToInteger ∧
    Overflow.infinityToInteger ≠ .integerTooLarge := by
  refine ⟨_, compile_ninesLine (show 307 < Text.digitLimit by decide), ?_, by decide⟩
  have hn : Text.number (List.replicate 308 '9') = 10 ^ 308 - 1 := by
    have := number_nines 308
    omega
  rw [ninesWait, hn]
  decide +kernel

end Ostinato
