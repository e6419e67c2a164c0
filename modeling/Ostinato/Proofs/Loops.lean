import Ostinato.Proofs.Repetition

/-!
# What loops play

Linking turns a loop into a jump back with a counter that is never set back, so a loop inside a
loop is repeated the first time it is reached and played once every time after. `first` and `again`
say this for trees without jumps: `first` is what a tree executes while its loops are untouched,
`again` what it executes once they are exhausted. `loops_play` says that the machine executes
`first` of the tree and halts.

The proof follows the tree. `Fresh` and `Spent` describe the counters of the loops in a stretch of
code, `plays_again` runs over code that is spent and leaves the counters alone, and `plays_first`
runs over code that is fresh and leaves it spent.
-/

namespace Ostinato

/-- The statements that are executed in the order of the text: no jumps, no loop without end. -/
def Statement.IsStructured : Statement → Prop
  | .tempo _ | .send _ | .wait _ | .play _ | .label .. => True
  | .loop count _ _ => ∃ n, count = some n ∧ 1 ≤ n
  | _ => False

namespace Forest

/-- What a tree executes when its loops are exhausted. -/
def again : List Statement → List Statement
  | [] => []
  | .label _ body _ :: rest => again body ++ again rest
  | .loop _ body _ :: rest => again body ++ again rest
  | .play p :: rest => Link.pressed {} p ++ again rest
  | s :: rest => s :: again rest

/-- What a tree executes when its loops are untouched: a loop of `n` rounds plays its body once
and then `n - 1` times again. -/
def first : List Statement → List Statement
  | [] => []
  | .label _ body _ :: rest => first body ++ first rest
  | .loop count body _ :: rest =>
    first body ++ (List.replicate (count.getD 1 - 1).toNat (again body)).flatten ++ first rest
  | .play p :: rest => Link.pressed {} p ++ first rest
  | s :: rest => s :: first rest

end Forest

namespace Link

theorem jumpBack_of_ne {n : Int} (hn : n ≠ 1) {base : Nat} {pos : Pos} :
    jumpBack (some n) base pos = [.jump ⟨loopName pos, some (n - 1), some (base : Int), pos⟩] :=
  if_neg fun e => hn (Option.some.inj e)

theorem settle_lower {tree : List Statement} {d : Defaults} {base : Nat}
    (h : Forest.Each Statement.IsStructured tree) (declared : List Declaration) :
    ∀ s ∈ lower d base tree, settle declared s = s := by
  induction tree using Forest.induct generalizing d base with
  | nil => simp [lower]
  | label name body pos rest ihBody ihRest =>
    obtain ⟨-, hbody, hrest⟩ := h.label
    simp only [lower]
    intro s hs
    rcases List.mem_append.mp hs with hs | hs
    · exact ihBody hbody s hs
    · exact ihRest hrest s hs
  | loop count body pos rest ihBody ihRest =>
    obtain ⟨-, hbody, hrest⟩ := h.loop
    simp only [lower]
    intro s hs
    rcases List.mem_append.mp hs with hs | hs
    · exact ihBody hbody s hs
    · rcases List.mem_append.mp hs with hs | hs
      · obtain ⟨-, rfl⟩ := mem_jumpBack.mp hs
        rfl
      · exact ihRest hrest s hs
  | leaf s rest hleaf ih =>
    obtain ⟨hs, hrest⟩ := h.leaf hleaf
    cases s with
    | label | loop => simp [Statement.isBlock] at hleaf
    | looseSend | jump | setting => exact absurd hs id
    | play p =>
      simp only [lower]
      intro t ht
      rcases List.mem_append.mp ht with ht | ht
      · have hj := isJump_pressed t ht
        cases t with
        | jump j => cases hj
        | _ => rfl
      · exact ih hrest t ht
    | _ =>
      simp only [lower]
      intro t ht
      rcases List.mem_cons.mp ht with rfl | ht
      · rfl
      · exact ih hrest t ht

end Link

namespace Machine

/-! ## Playing code -/

/-- `m` steps to `m'` and executes `code`, jumps left out. -/
inductive Plays : Machine → List Statement → Machine → Prop where
  | refl (m : Machine) : Plays m [] m
  | instruction {m m' : Machine} {s : Statement} {code : List Statement} :
      m.instruction? = some s → s.isJump = false → Plays m.step.1 code m' → Plays m (s :: code) m'
  | jump {m m' : Machine} {j : Jump} {code : List Statement} :
      m.instruction? = some (.jump j) → Plays m.step.1 code m' → Plays m code m'

theorem Plays.trans {m m₁ m₂ : Machine} {a b : List Statement} (h₁ : Plays m a m₁)
    (h₂ : Plays m₁ b m₂) : Plays m (a ++ b) m₂ := by
  induction h₁ with
  | refl => exact h₂
  | instruction hi hs _ ih => exact .instruction hi hs (ih h₂)
  | jump hi _ ih => exact .jump hi (ih h₂)

theorem Plays.steps {m m' : Machine} {code : List Statement} (h : Plays m code m') :
    ∃ n, m.steps n = m' ∧ (m.trace n).filter (!·.isJump) = code := by
  induction h with
  | refl m => exact ⟨0, rfl, rfl⟩
  | instruction hi hs _ ih =>
    obtain ⟨n, hn, ht⟩ := ih
    exact ⟨n + 1, hn, by simp [trace, hi, hs, ht]⟩
  | @jump _ _ j _ hi _ ih =>
    obtain ⟨n, hn, ht⟩ := ih
    have hj : (Statement.jump j).isJump = true := rfl
    exact ⟨n + 1, hn, by simp [trace, hi, hj, ht]⟩

/-- `code` is placed at index `base` of the program. -/
def Seg (p : Program) (base : Nat) (code : List Statement) : Prop :=
  ∀ (k : Nat) (s : Statement), code[k]? = some s → p.at? ((base + k : Nat) : Int) = some s

section
variable {p : Program} {base : Nat}

theorem Seg.append {a b : List Statement} (h : Seg p base (a ++ b)) :
    Seg p base a ∧ Seg p (base + a.length) b := by
  constructor
  · intro k s hs
    refine h k s ?_
    rw [List.getElem?_append_left (List.getElem?_eq_some_iff.mp hs).1, hs]
  · intro k s hs
    rw [Nat.add_assoc]
    refine h (a.length + k) s ?_
    rw [List.getElem?_append_right (by omega), Nat.add_sub_cancel_left, hs]

theorem Seg.head {s : Statement} {code : List Statement} (h : Seg p base (s :: code)) :
    p.at? (base : Int) = some s := h 0 s rfl

theorem Seg.tail {s : Statement} {code : List Statement} (h : Seg p base (s :: code)) :
    Seg p (base + 1) code := (Seg.append (a := [s]) h).2

end

/-! ## Steps that do not fail -/

/-- A machine that runs a compiled program, has not finished, and never meets a number that it
cannot convert. -/
structure Live (m : Machine) : Prop where
  sound : m.Sound
  running : m.isFinished = false
  calm : ∀ n o, (m.steps n).step.2 ≠ .overflow o

/-- A live machine that is at index `i` of program `p`. -/
structure At (p : Program) (i : Nat) (m : Machine) : Prop where
  live : m.Live
  program : m.program = p
  ip : m.ip = i

section
variable {p : Program} {i : Nat} {m : Machine}

theorem At.instruction? (h : At p i m) {s : Statement} (hs : p.at? (i : Int) = some s) :
    m.instruction? = some s := by
  rw [instruction?_eq_some, h.program, h.ip]
  exact ⟨h.live.running, hs⟩

theorem Live.step (h : m.Live) {s : Statement} (hi : m.instruction? = some s) :
    m.step.1.Live := by
  refine ⟨h.sound.of_stepped m.stepped, ?_, fun n => h.calm (n + 1)⟩
  rcases h.sound.step_cases hi with ⟨-, c, hm'⟩ | ⟨-, o, ho⟩ | ⟨j, t, cs, taken, -, -, -, hm'⟩
  · rw [hm']
    rfl
  · exact absurd ho (h.calm 0 o)
  · rw [hm']
    rfl

theorem Live.step_plain (h : m.Live) {s : Statement} (hi : m.instruction? = some s)
    (hs : s.isJump = false) : m.step.1.ip = m.ip + 1 ∧ m.step.1.counters = m.counters := by
  rcases h.sound.step_cases hi with ⟨-, c, hm'⟩ | ⟨-, o, ho⟩ | ⟨j, t, cs, taken, rfl, -⟩
  · rw [hm']
    exact ⟨rfl, rfl⟩
  · exact absurd ho (h.calm 0 o)
  · cases hs

theorem At.step (h : At p i m) {s : Statement} (hs : p.at? (i : Int) = some s) {i' : Nat}
    (hip : m.step.1.ip = i') : At p i' m.step.1 :=
  ⟨h.live.step (h.instruction? hs), m.stepped.program.trans h.program, hip⟩

theorem At.plays_plain (h : At p i m) {code : List Statement} (hseg : Seg p i code)
    (hcode : ∀ s ∈ code, s.isJump = false) :
    ∃ m', Plays m code m' ∧ At p (i + code.length) m' ∧ m'.counters = m.counters := by
  induction code generalizing i m with
  | nil => exact ⟨m, .refl m, h, rfl⟩
  | cons s rest ih =>
    have hs := hcode s (by simp)
    have hi := h.instruction? hseg.head
    obtain ⟨hip, hcs⟩ := h.live.step_plain hi hs
    have hstep : At p (i + 1) m.step.1 := h.step hseg.head (by rw [hip, h.ip]; rfl)
    obtain ⟨m', hplays, hat, hcs'⟩ := ih hstep hseg.tail fun t ht => hcode t (by simp [ht])
    refine ⟨m', .instruction hi hs hplays, ?_, hcs'.trans hcs⟩
    rwa [Nat.add_assoc, Nat.add_comm 1] at hat

section
variable {j : Jump} {n : Int} (hj : p.at? (i : Int) = some (.jump j))
  (hn : m.counters.get? i = some n)
include hj hn

theorem At.plays_taken (h : At p i m) {base : Nat} (ht : j.target = some (base : Int))
    (ho : Counters.Open j.count n) :
    ∃ m', Plays m [] m' ∧ At p base m' ∧ m'.counters.get? i = some (n + 1) ∧
      ∀ k : Int, k ≠ i → m'.counters.get? k = m.counters.get? k := by
  have hi := h.instruction? hj
  have he : m.Executes i := ⟨h.ip, by rw [hi]; rfl⟩
  obtain ⟨hip, hcount⟩ := (h.live.sound.step_jump (by rw [h.program, hj]) ht hn he).1 ho
  refine ⟨m.step.1, .jump hi (.refl _), h.step hj hip, hcount, fun k hk => ?_⟩
  exact m.stepped.counter_frame fun he' => hk (he'.1.symm.trans h.ip)

theorem At.plays_exhausted (h : At p i m) (ho : ¬Counters.Open j.count n) :
    ∃ m', Plays m [] m' ∧ At p (i + 1) m' ∧
      ∀ k : Int, m'.counters.get? k = m.counters.get? k := by
  have hi := h.instruction? hj
  have he : m.Executes i := ⟨h.ip, by rw [hi]; rfl⟩
  obtain ⟨⟨t, ht, -⟩, -⟩ := h.live.sound.playable hi
  obtain ⟨hip, hcount⟩ := (h.live.sound.step_jump (by rw [h.program, hj]) ht hn he).2 ho
  refine ⟨m.step.1, .jump hi (.refl _), h.step hj hip, fun k => ?_⟩
  by_cases hk : k = i
  · rw [hk, hcount, hn]
  · exact m.stepped.counter_frame fun he' => hk (he'.1.symm.trans h.ip)

end

end

/-! ## Counters of a stretch of code -/

/-- No jump between the two indices has been taken. -/
def Fresh (p : Program) (cs : Counters) (start stop : Nat) : Prop :=
  ∀ (i : Nat) (j : Jump), start ≤ i → i < stop → p.at? (i : Int) = some (.jump j) →
    cs.get? i = some 0

/-- Every jump between the two indices has been taken as often as its bound says. -/
def Spent (p : Program) (cs : Counters) (start stop : Nat) : Prop :=
  ∀ (i : Nat) (j : Jump), start ≤ i → i < stop → p.at? (i : Int) = some (.jump j) →
    cs.get? i = j.count

section
variable {p : Program} {cs cs' : Counters} {a b c d : Nat}

theorem Fresh.sub (h : Fresh p cs a d) (hab : a ≤ b) (hcd : c ≤ d)
    (hcs : ∀ k : Nat, b ≤ k → k < c → cs'.get? k = cs.get? k) : Fresh p cs' b c := by
  intro i j hi hi' hj
  rw [hcs i hi hi']
  exact h i j (by omega) (by omega) hj

theorem Spent.sub (h : Spent p cs a d) (hab : a ≤ b) (hcd : c ≤ d)
    (hcs : ∀ k : Nat, b ≤ k → k < c → cs'.get? k = cs.get? k) : Spent p cs' b c := by
  intro i j hi hi' hj
  rw [hcs i hi hi']
  exact h i j (by omega) (by omega) hj

theorem Spent.append (h₁ : Spent p cs a b) (h₂ : Spent p cs b c) : Spent p cs a c := by
  intro i j hi hi' hj
  rcases Nat.lt_or_ge i b with hb | hb
  · exact h₁ i j hi hb hj
  · exact h₂ i j hb hi' hj

/-- Code without jumps has no counters, so it is spent from the start. -/
theorem Seg.spent {code : List Statement} (hseg : Seg p a code)
    (hcode : ∀ s ∈ code, s.isJump = false) : Spent p cs a (a + code.length) := by
  intro i j hi hi' hj
  have hget : code[i - a]? = some code[i - a] := List.getElem?_eq_getElem (by omega)
  have hat := hseg (i - a) _ hget
  rw [Nat.add_sub_cancel' hi, hj] at hat
  have hjump := hcode _ (List.mem_of_getElem? hget)
  rw [← Option.some.inj hat] at hjump
  cases hjump

theorem Spent.singleton {j : Jump} (hj : p.at? (a : Int) = some (.jump j))
    (hn : cs.get? a = j.count) : Spent p cs a (a + 1) := by
  intro i j' hi hi' hj'
  obtain rfl : i = a := by omega
  rw [hj] at hj'
  cases hj'
  exact hn

end

/-! ## Trees -/

open Link (lower jumpBack)

theorem leaf_code {s : Statement} (hleaf : s.isBlock = false) (hs : s.IsStructured) :
    ∃ code : List Statement, (∀ t ∈ code, t.isJump = false) ∧ ∀ rest,
      (∀ base, lower {} base (s :: rest) = code ++ lower {} (base + code.length) rest) ∧
      Forest.again (s :: rest) = code ++ Forest.again rest ∧
      Forest.first (s :: rest) = code ++ Forest.first rest := by
  cases s with
  | label | loop => simp [Statement.isBlock] at hleaf
  | looseSend | jump | setting => exact absurd hs id
  | play p =>
    refine ⟨Link.pressed {} p, Link.isJump_pressed, fun rest => ⟨fun base => ?_, ?_, ?_⟩⟩
    · simp only [lower]
    · simp only [Forest.again]
    · simp only [Forest.first]
  | tempo t =>
    refine ⟨[.tempo t], by simp [Statement.isJump], fun rest => ⟨fun base => ?_, ?_, ?_⟩⟩
    · simp [lower]
    · simp [Forest.again]
    · simp [Forest.first]
  | send s =>
    refine ⟨[.send s], by simp [Statement.isJump], fun rest => ⟨fun base => ?_, ?_, ?_⟩⟩
    · simp [lower]
    · simp [Forest.again]
    · simp [Forest.first]
  | wait w =>
    refine ⟨[.wait w], by simp [Statement.isJump], fun rest => ⟨fun base => ?_, ?_, ?_⟩⟩
    · simp [lower]
    · simp [Forest.again]
    · simp [Forest.first]

/-- The end of a loop that is spent: a loop of one round has no jump, any other falls through. -/
theorem plays_through {n : Int} (hn : 1 ≤ n) {p : Program} {base stop : Nat} {pos : Pos}
    (hseg : Seg p stop (jumpBack (some n) base pos)) {m : Machine} (hm : At p stop m)
    (hc : Spent p m.counters stop (stop + (jumpBack (some n) base pos).length)) :
    ∃ m', Plays m [] m' ∧ At p (stop + (jumpBack (some n) base pos).length) m' ∧
      ∀ k : Int, m'.counters.get? k = m.counters.get? k := by
  by_cases hn1 : n = 1
  · subst hn1
    exact ⟨m, .refl m, hm, fun _ => rfl⟩
  · rw [Link.jumpBack_of_ne hn1] at hseg hc ⊢
    refine hm.plays_exhausted hseg.head (hc stop _ (by omega) (by simp) hseg.head) ?_
    rw [Counters.open_some]
    omega

/-- Over code that is spent the tree plays `again`. -/
theorem plays_again {tree : List Statement} (hs : Forest.Each Statement.IsStructured tree)
    {p : Program} {base : Nat} {m : Machine} (hseg : Seg p base (lower {} base tree))
    (hm : At p base m) (hc : Spent p m.counters base (base + (lower {} base tree).length)) :
    ∃ m', Plays m (Forest.again tree) m' ∧ At p (base + (lower {} base tree).length) m' ∧
      ∀ k : Int, m'.counters.get? k = m.counters.get? k := by
  induction tree using Forest.induct generalizing base m with
  | nil =>
    simp only [lower, Forest.again] at *
    exact ⟨m, .refl m, hm, fun _ => rfl⟩
  | label name body pos rest ihBody ihRest =>
    obtain ⟨-, hbody, hrest⟩ := hs.label
    simp only [lower, Forest.again, List.length_append, ← Nat.add_assoc] at *
    obtain ⟨hsegBody, hsegRest⟩ := hseg.append
    obtain ⟨m₁, hplays₁, hm₁, hcs₁⟩ :=
      ihBody hbody hsegBody hm (hc.sub (by omega) (by omega) fun _ _ _ => rfl)
    obtain ⟨m₂, hplays₂, hm₂, hcs₂⟩ :=
      ihRest hrest hsegRest hm₁ (hc.sub (by omega) (by omega) fun k _ _ => hcs₁ k)
    exact ⟨m₂, hplays₁.trans hplays₂, hm₂, fun k => (hcs₂ k).trans (hcs₁ k)⟩
  | loop count body pos rest ihBody ihRest =>
    obtain ⟨⟨n, rfl, hn⟩, hbody, hrest⟩ := hs.loop
    simp only [lower, Forest.again, List.length_append, ← Nat.add_assoc] at *
    obtain ⟨hsegBody, hsegRest⟩ := hseg.append
    obtain ⟨hsegJump, hsegRest⟩ := hsegRest.append
    obtain ⟨m₁, hplays₁, hm₁, hcs₁⟩ :=
      ihBody hbody hsegBody hm (hc.sub (by omega) (by omega) fun _ _ _ => rfl)
    obtain ⟨m₂, hplays₂, hm₂, hcs₂⟩ := plays_through hn hsegJump hm₁
      (hc.sub (by omega) (by omega) fun k _ _ => hcs₁ k)
    obtain ⟨m₃, hplays₃, hm₃, hcs₃⟩ := ihRest hrest hsegRest hm₂
      (hc.sub (by omega) (by omega) fun k _ _ => (hcs₂ k).trans (hcs₁ k))
    exact ⟨m₃, hplays₁.trans (hplays₂.trans hplays₃), hm₃,
      fun k => (hcs₃ k).trans ((hcs₂ k).trans (hcs₁ k))⟩
  | leaf s rest hleaf ih =>
    obtain ⟨hstr, hrest⟩ := hs.leaf hleaf
    obtain ⟨code, hcode, heq⟩ := leaf_code hleaf hstr
    obtain ⟨hlower, hagain, -⟩ := heq rest
    simp only [hlower, hagain, List.length_append, ← Nat.add_assoc] at *
    obtain ⟨hsegCode, hsegRest⟩ := hseg.append
    obtain ⟨m₁, hplays₁, hm₁, hcs₁⟩ := hm.plays_plain hsegCode hcode
    obtain ⟨m₂, hplays₂, hm₂, hcs₂⟩ := ih hrest hsegRest hm₁
      (hc.sub (by omega) (by omega) fun k _ _ => by rw [hcs₁])
    exact ⟨m₂, hplays₁.trans hplays₂, hm₂, fun k => by rw [hcs₂, hcs₁]⟩

/-- At the end of a loop that has `r` of its `b` jumps left, the body is played again `r` times. -/
theorem plays_rounds {body : List Statement} (hs : Forest.Each Statement.IsStructured body)
    {p : Program} {base stop : Nat} (hseg : Seg p base (lower {} base body))
    (hstop : stop = base + (lower {} base body).length) {label : String} {b : Int} {pos : Pos}
    (hj : p.at? (stop : Int) = some (.jump ⟨label, some b, some (base : Int), pos⟩)) (r : Nat)
    {m : Machine} (hm : At p stop m) (hc : Spent p m.counters base stop)
    (hn : m.counters.get? stop = some (b - r)) :
    ∃ m', Plays m (List.replicate r (Forest.again body)).flatten m' ∧ At p (stop + 1) m' ∧
      m'.counters.get? stop = some b ∧
      ∀ k : Int, k ≠ stop → m'.counters.get? k = m.counters.get? k := by
  induction r generalizing m with
  | zero =>
    have hn : m.counters.get? stop = some b := by simpa using hn
    obtain ⟨m', hplays, hm', hcs⟩ := hm.plays_exhausted hj hn (by simp [Counters.open_some])
    exact ⟨m', hplays, hm', (hcs _).trans hn, fun k _ => hcs k⟩
  | succ r ih =>
    have ho : Counters.Open (some b) (b - (r + 1 : Nat)) := by
      rw [Counters.open_some]
      omega
    obtain ⟨m₁, hplays₁, hm₁, hget₁, hcs₁⟩ := hm.plays_taken hj hn rfl ho
    have hc₁ : Spent p m₁.counters base stop :=
      hc.sub (by omega) (by omega) fun k _ hk => hcs₁ k (by omega)
    obtain ⟨m₂, hplays₂, hm₂, hcs₂⟩ := plays_again hs hseg hm₁ (hstop ▸ hc₁)
    rw [← hstop] at hm₂
    have hc₂ : Spent p m₂.counters base stop :=
      hc₁.sub (by omega) (by omega) fun k _ _ => hcs₂ k
    have hget₂ : m₂.counters.get? stop = some (b - r) := by
      rw [hcs₂, hget₁]
      congr 1
      omega
    obtain ⟨m₃, hplays₃, hm₃, hget₃, hcs₃⟩ := ih hm₂ hc₂ hget₂
    refine ⟨m₃, ?_, hm₃, hget₃, fun k hk => ?_⟩
    · rw [List.replicate_succ, List.flatten_cons]
      exact hplays₁.trans (hplays₂.trans hplays₃)
    · rw [hcs₃ k hk, hcs₂, hcs₁ k hk]

/-- The end of a loop of `n` rounds after the first of them: what is left are `n - 1` rounds. -/
theorem plays_left {body : List Statement} (hs : Forest.Each Statement.IsStructured body) {n : Int}
    (hn : 1 ≤ n) {p : Program} {base stop : Nat} (hseg : Seg p base (lower {} base body))
    (hstop : stop = base + (lower {} base body).length) {pos : Pos}
    (hsegJump : Seg p stop (jumpBack (some n) base pos)) {m : Machine} (hm : At p stop m)
    (hspent : Spent p m.counters base stop)
    (hfresh : Fresh p m.counters stop (stop + (jumpBack (some n) base pos).length)) :
    ∃ m', Plays m (List.replicate (n - 1).toNat (Forest.again body)).flatten m' ∧
      At p (stop + (jumpBack (some n) base pos).length) m' ∧
      Spent p m'.counters base (stop + (jumpBack (some n) base pos).length) ∧
      ∀ k : Int, k < stop ∨ (stop + (jumpBack (some n) base pos).length : Nat) ≤ k →
        m'.counters.get? k = m.counters.get? k := by
  by_cases hn1 : n = 1
  · subst hn1
    exact ⟨m, .refl m, hm, hspent, fun _ _ => rfl⟩
  · rw [Link.jumpBack_of_ne hn1] at hsegJump hfresh ⊢
    have hj := hsegJump.head
    have hget : m.counters.get? stop = some (n - 1 - (n - 1).toNat) := by
      rw [hfresh stop _ (by omega) (by simp) hj]
      congr 1
      omega
    obtain ⟨m', hplays, hm', hget', hcs⟩ := plays_rounds hs hseg hstop hj _ hm hspent hget
    refine ⟨m', hplays, hm', Spent.append ?_ (.singleton hj hget'), fun k hk => ?_⟩
    · exact hspent.sub (by omega) (by omega) fun k _ hk => hcs k (by omega)
    · exact hcs k (by simp at hk; omega)

/-- Over code that is fresh the tree plays `first`, and leaves the code spent. -/
theorem plays_first {tree : List Statement} (hs : Forest.Each Statement.IsStructured tree)
    {p : Program} {base : Nat} {m : Machine} (hseg : Seg p base (lower {} base tree))
    (hm : At p base m) (hc : Fresh p m.counters base (base + (lower {} base tree).length)) :
    ∃ m', Plays m (Forest.first tree) m' ∧ At p (base + (lower {} base tree).length) m' ∧
      Spent p m'.counters base (base + (lower {} base tree).length) ∧
      ∀ k : Int, k < base ∨ (base + (lower {} base tree).length : Nat) ≤ k →
        m'.counters.get? k = m.counters.get? k := by
  induction tree using Forest.induct generalizing base m with
  | nil =>
    simp only [lower, Forest.first] at *
    refine ⟨m, .refl m, hm, fun i j hi hi' => ?_, fun _ _ => rfl⟩
    simp at hi'
    omega
  | label name body pos rest ihBody ihRest =>
    obtain ⟨-, hbody, hrest⟩ := hs.label
    simp only [lower, Forest.first, List.length_append, ← Nat.add_assoc] at *
    obtain ⟨hsegBody, hsegRest⟩ := hseg.append
    obtain ⟨m₁, hplays₁, hm₁, hspent₁, hcs₁⟩ :=
      ihBody hbody hsegBody hm (hc.sub (by omega) (by omega) fun _ _ _ => rfl)
    obtain ⟨m₂, hplays₂, hm₂, hspent₂, hcs₂⟩ := ihRest hrest hsegRest hm₁
      (hc.sub (by omega) (by omega) fun k _ _ => hcs₁ k (by omega))
    refine ⟨m₂, hplays₁.trans hplays₂, hm₂, Spent.append ?_ hspent₂, fun k hk => ?_⟩
    · exact hspent₁.sub (by omega) (by omega) fun k _ _ => hcs₂ k (by omega)
    · rw [hcs₂ k (by omega), hcs₁ k (by omega)]
  | loop count body pos rest ihBody ihRest =>
    obtain ⟨⟨n, rfl, hn⟩, hbody, hrest⟩ := hs.loop
    simp only [lower, Forest.first, List.length_append, ← Nat.add_assoc, Option.getD_some] at *
    obtain ⟨hsegBody, hsegRest⟩ := hseg.append
    obtain ⟨hsegJump, hsegRest⟩ := hsegRest.append
    obtain ⟨m₁, hplays₁, hm₁, hspent₁, hcs₁⟩ :=
      ihBody hbody hsegBody hm (hc.sub (by omega) (by omega) fun _ _ _ => rfl)
    generalize hstop : base + (lower {} base body).length = stop at *
    -- The loops of the body are spent by now, so the rounds that are left play it again.
    obtain ⟨m₂, hplays₂, hm₂, hspent₂, hcs₂⟩ := plays_left hbody hn hsegBody hstop.symm hsegJump
      hm₁ hspent₁ (hc.sub (by omega) (by omega) fun k _ _ => hcs₁ k (by omega))
    obtain ⟨m₃, hplays₃, hm₃, hspent₃, hcs₃⟩ := ihRest hrest hsegRest hm₂
      (hc.sub (by omega) (by omega) fun k _ _ => by rw [hcs₂ k (by omega), hcs₁ k (by omega)])
    refine ⟨m₃, ?_, hm₃, Spent.append ?_ hspent₃, fun k hk => ?_⟩
    · rw [List.append_assoc]
      exact hplays₁.trans (hplays₂.trans hplays₃)
    · exact hspent₂.sub (by omega) (by omega) fun k _ _ => hcs₃ k (by omega)
    · rw [hcs₃ k (by omega), hcs₂ k (by omega), hcs₁ k (by omega)]
  | leaf s rest hleaf ih =>
    obtain ⟨hstr, hrest⟩ := hs.leaf hleaf
    obtain ⟨code, hcode, heq⟩ := leaf_code hleaf hstr
    obtain ⟨hlower, -, hfirst⟩ := heq rest
    simp only [hlower, hfirst, List.length_append, ← Nat.add_assoc] at *
    obtain ⟨hsegCode, hsegRest⟩ := hseg.append
    obtain ⟨m₁, hplays₁, hm₁, hcs₁⟩ := hm.plays_plain hsegCode hcode
    obtain ⟨m₂, hplays₂, hm₂, hspent₂, hcs₂⟩ := ih hrest hsegRest hm₁
      (hc.sub (by omega) (by omega) fun k _ _ => by rw [hcs₁])
    exact ⟨m₂, hplays₁.trans hplays₂, hm₂, (hsegCode.spent hcode).append hspent₂,
      fun k hk => by rw [hcs₂ k (by omega), hcs₁]⟩

/-! ## Programs -/

theorem seg_link {tree : List Statement} (hs : Forest.Each Statement.IsStructured tree)
    {name : Option String} {p : Program} (h : link tree name = .ok p) :
    Seg p 0 (lower {} 0 tree) ∧ p.length = (lower {} 0 tree).length := by
  obtain ⟨hcode, -⟩ := Link.link_ok h
  have hsettle : (lower {} 0 tree).map (Link.settle (Link.declarations {} 0 tree)) =
      lower {} 0 tree := by
    conv => rhs; rw [← List.map_id (lower {} 0 tree)]
    exact List.map_congr_left (Link.settle_lower hs _)
  rw [hsettle] at hcode
  refine ⟨fun k s hk => ?_, ?_⟩
  · rw [Program.at?_eq_some, hcode]
    exact ⟨by omega, by simpa using hk⟩
  · rw [Program.length, ← Array.length_toList, hcode]

theorem At.halts {p : Program} {m : Machine} (h : At p p.length m) :
    m.step.1.state = .halted ∧ m.instruction? = none := by
  constructor
  · rw [Machine.step, if_neg (by rw [h.live.running]; simp)]
    dsimp only
    rw [if_pos (by rw [h.ip, h.program])]
  · cases hi : m.instruction? with
    | none => rfl
    | some s =>
      have hnext := next_pointer hi
      rw [h.ip, h.program] at hnext
      omega

/-- **Loops play what they say.** A program without jumps and without endless loops executes, jumps
left out, what `first` makes of its tree, and halts, unless a step meets a number that cannot be
converted. -/
theorem loops_play {text : String} {name source : Option String} {tree : List Statement}
    {p : Program} (hparse : Source.parse text name = .ok tree)
    (hs : Forest.Each Statement.IsStructured tree) (hlink : link tree source = .ok p)
    (hcalm : ∀ n o, ((load p).steps n).step.2 ≠ .overflow o) :
    ∃ n, ((load p).steps n).state = .halted ∧
      ((load p).trace n).filter (!·.isJump) = Forest.first tree := by
  have hp := Link.program_wellFormed (Source.parse_inRange hparse) hlink
  obtain ⟨hseg, hlen⟩ := seg_link hs hlink
  have hat : At p 0 (load p) := ⟨⟨load_sound hp, rfl, hcalm⟩, rfl, rfl⟩
  have hfresh : Fresh p (load p).counters 0 (0 + (lower {} 0 tree).length) :=
    fun i j _ _ hj => Counters.get?_start (hp.mem_indices.mpr ⟨j, hj⟩)
  obtain ⟨m, hplays, hm, -⟩ := plays_first hs hseg hat hfresh
  rw [Nat.zero_add, ← hlen] at hm
  obtain ⟨hhalted, hnone⟩ := hm.halts
  obtain ⟨n, hsteps, htrace⟩ := hplays.steps
  refine ⟨n + 1, ?_, ?_⟩
  · rw [steps_add, hsteps]
    exact hhalted
  · rw [trace_add, hsteps]
    simp [trace, hnone, htrace]

theorem isStructured_sample : Forest.Each Statement.IsStructured Source.sampleTree := by
  intro s hs
  simp only [Source.sampleTree, Forest.nodes_loop, Forest.nodes_label, Forest.nodes,
    List.mem_cons, List.append_nil, List.cons_append, List.nil_append, List.not_mem_nil,
    or_false] at hs
  rcases hs with rfl | rfl | rfl | rfl | rfl
  · exact ⟨2, rfl, by decide⟩
  · exact trivial
  · exact ⟨3, rfl, by decide⟩
  · exact trivial
  · exact trivial

theorem calm_sample (n : Nat) (o : Overflow) :
    ((load sampleProgram).steps n).step.2 ≠ .overflow o := by
  have hfinished : ((load sampleProgram).steps 21).isFinished = true := by decide +kernel
  have hearly : ∀ n < 21, ((load sampleProgram).steps n).step.2.overflow? = none := by
    decide +kernel
  rcases Nat.lt_or_ge n 21 with hn | hn
  · exact Step.ne_overflow (hearly n hn) o
  · obtain ⟨k, rfl⟩ := Nat.exists_eq_add_of_le hn
    rw [steps_add, steps_of_finished hfinished, Machine.step, if_pos hfinished]
    simp

theorem loops_play_sample : ∃ n, ((load sampleProgram).steps n).state = .halted ∧
    ((load sampleProgram).trace n).filter (!·.isJump) = Forest.first Source.sampleTree :=
  loops_play Source.parse_sample isStructured_sample link_sample calm_sample

end Machine

end Ostinato
