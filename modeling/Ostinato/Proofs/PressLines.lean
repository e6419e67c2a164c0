import Ostinato.Proofs.Emission
import Ostinato.Proofs.Layout
import Ostinato.Proofs.Safety
import Ostinato.Proofs.Tracking

/-!
# Press lines leave no note sounding

A press line turns its notes on, waits and turns the same notes off. If a program has no other
notes, then the notes that sound are determined by where in a press line the machine is, and none
sounds outside of one, whatever jumps have led there.

The code of such a program is `Whole`: it is put together from the code of press lines and from
instructions without notes. So it can be cut at every index that is not `Amid` a press line into a
part before it that is whole again (`whole_take_or_amid`). Jumps stand at such indices and go to such
indices, since statements do not overlap (`places_pairwise`).
-/

namespace Ostinato

open Forest (nodes)

def Send.key (n : Send) : NoteKey :=
  ⟨n.output.map .name, n.channel, n.pitch⟩

def Statement.key? : Statement → Option NoteKey
  | .send n => some n.key
  | _ => none

namespace Sounding

def pass (s : Sounding) : Statement → Sounding
  | .send n => s.mark n.key (n.on && 0 < n.velocity)
  | _ => s

theorem pass_of_key?_eq_none {st : Statement} (h : st.key? = none) (s : Sounding) :
    s.pass st = s := by
  cases st with
  | send n => cases h
  | _ => rfl

theorem track_event {m : Machine} {n : Send} {e : Event} (h : m.event n = .ok e) (s : Sounding) :
    s.track e = s.pass (.send n) := by
  unfold Machine.event at h
  split at h
  · cases h
  · split at h
    · cases h
    · split at h
      · cases h
      · cases h
        rfl

theorem mem_passed {s : Sounding} {code : List Statement} {k : NoteKey}
    (h : k ∈ (code.foldl pass s).notes) : k ∈ s.notes ∨ k ∈ code.filterMap Statement.key? := by
  induction code generalizing s with
  | nil => exact .inl h
  | cons st rest ih =>
    rcases ih h with h | h
    · cases st with
      | send n =>
        rw [pass, mem_mark] at h
        split at h
        · rename_i hk
          exact .inr (by simp [Statement.key?, hk])
        · exact .inl h
      | _ => exact .inl h
    · refine .inr (List.mem_filterMap.mpr ?_)
      obtain ⟨st', hst', hk⟩ := List.mem_filterMap.mp h
      exact ⟨st', List.mem_cons_of_mem st hst', hk⟩

theorem mem_silenced {s : Sounding} {code : List Statement} {k : NoteKey}
    (hoff : ∀ n, .send n ∈ code → n.on = false) (h : k ∈ (code.foldl pass s).notes) :
    k ∈ s.notes ∧ k ∉ code.filterMap Statement.key? := by
  induction code generalizing s with
  | nil => exact ⟨h, by simp⟩
  | cons st rest ih =>
    obtain ⟨hs, hrest⟩ := ih (fun n hn => hoff n (List.mem_cons_of_mem st hn)) h
    cases st with
    | send n =>
      have hn : n.on = false := hoff n (by simp)
      rw [pass, mem_mark, hn] at hs
      split at hs
      · simp at hs
      · rename_i hk
        exact ⟨hs, by simpa [Statement.key?, hk] using hrest⟩
    | _ => exact ⟨hs, by simpa [Statement.key?] using hrest⟩

theorem eq_empty_of_not_mem {s : Sounding} (h : ∀ k, k ∉ s.notes) : s = {} :=
  congrArg Sounding.mk (List.eq_nil_iff_forall_not_mem.mpr h)

end Sounding

namespace Link

/-! ## Whole press lines -/

theorem key?_note {channel velocity output : SettingValue} {pos : Pos} {pitch : Int} {k : NoteKey}
    (h : (note true channel velocity output pos pitch).key? = some k) :
    (note false channel (.number 0) output pos pitch).key? = some k := by
  unfold note at h
  split at h
  · rename_i c v o hv ho
    cases h
    simp [note, ho, Statement.key?, Send.key]
  · cases h

theorem on_of_note {on : Bool} {channel velocity output : SettingValue} {pos : Pos} {pitch : Int}
    {n : Send} (h : note on channel velocity output pos pitch = .send n) : n.on = on := by
  unfold note at h
  split at h
  · cases h
    rfl
  · cases h

/-- **A press line leaves no note sounding.** -/
theorem passed_pressed (d : Defaults) (p : Play) : (pressed d p).foldl Sounding.pass {} = {} := by
  unfold pressed
  split
  · rename_i code h
    obtain ⟨notes, w, -, -, rfl⟩ := press_eq_ok.mp h
    refine Sounding.eq_empty_of_not_mem fun k hk => ?_
    rw [List.foldl_append, List.foldl_cons, Sounding.pass_of_key?_eq_none rfl] at hk
    obtain ⟨hon, hoff⟩ := Sounding.mem_silenced (fun n hn => by
      obtain ⟨pitch, -, hnote⟩ := List.mem_map.mp hn
      exact on_of_note hnote) hk
    rcases Sounding.mem_passed hon with hnil | hkey
    · simp at hnil
    · -- The note was turned on, so it is among those that are turned off.
      obtain ⟨st, hst, hk⟩ := List.mem_filterMap.mp hkey
      obtain ⟨pitch, hpitch, rfl⟩ := List.mem_map.mp hst
      exact hoff (List.mem_filterMap.mpr ⟨_, List.mem_map_of_mem hpitch, key?_note hk⟩)
  · rfl

/-- Code that is made of press lines from end to end and of instructions without notes. -/
inductive Whole : List Statement → Prop where
  | nil : Whole []
  | press {code : List Statement} {d : Defaults} {p : Play} :
      Whole code → Whole (code ++ pressed d p)
  | other {code : List Statement} {s : Statement} :
      Whole code → s.key? = none → Whole (code ++ [s])

theorem Whole.passed {code : List Statement} (h : Whole code) :
    code.foldl Sounding.pass {} = {} := by
  induction h with
  | nil => rfl
  | @press _ d p _ ih => rw [List.foldl_append, ih, passed_pressed d p]
  | other _ hs ih =>
    rw [List.foldl_append, ih]
    exact Sounding.pass_of_key?_eq_none hs {}

theorem Whole.jumpBack {code : List Statement} (h : Whole code) (count : Option Int) (base : Nat)
    (pos : Pos) : Whole (code ++ jumpBack count base pos) := by
  unfold Link.jumpBack
  split
  · rwa [List.append_nil]
  · exact h.other rfl

section
variable {before rest tree : List Statement} {scope : List String}

theorem Whole.leaf {s : Statement} (h : Whole (codeOf before)) (hleaf : s.isBlock = false)
    (hs : s.key? = none) : Whole (codeOf (before ++ [s])) := by
  rw [codeOf_append]
  cases s with
  | label | loop => simp [Statement.isBlock] at hleaf
  | play p =>
    simp only [codeAfter, lower, List.append_nil]
    exact h.press
  | setting s => simpa [codeAfter, lower] using h
  | _ =>
    simp only [codeAfter, lower]
    exact h.other hs

theorem whole_codeOf (htree : Forest.Each (·.key? = none) tree) (h : Whole (codeOf before)) :
    Whole (codeOf (before ++ tree)) := by
  induction tree using Forest.induct generalizing before with
  | nil => simpa using h
  | label name body pos rest ihBody ihRest =>
    obtain ⟨-, hbody, hrest⟩ := htree.label
    rw [List.append_cons]
    refine ihRest hrest ?_
    rw [codeOf_append, codeAfter_label, ← codeOf_append]
    exact ihBody hbody h
  | loop count body pos rest ihBody ihRest =>
    obtain ⟨-, hbody, hrest⟩ := htree.loop
    rw [List.append_cons]
    refine ihRest hrest ?_
    rw [codeOf_append, codeAfter_loop, ← List.append_assoc, ← codeOf_append]
    exact (ihBody hbody h).jumpBack count _ pos
  | leaf s rest hleaf ih =>
    obtain ⟨hs, hrest⟩ := htree.leaf hleaf
    rw [List.append_cons]
    exact ih hrest (h.leaf hleaf hs)

/-! ## Cutting the code -/

/-- Whether an index lies strictly inside the code of a press line: behind its first instruction and
not yet behind its last. -/
def Place.Amid (x : Place) (i : Int) : Prop :=
  ∃ p, x.statement = .play p ∧ x.start < i ∧ i < x.start + (x.code [.play p]).length

/-- Whether an index lies strictly inside the code of one of the press lines of a tree. -/
def Amid (tree : List Statement) (i : Int) : Prop := ∃ x ∈ places [] [] tree, x.Amid i

theorem codeOf_take_head {s : Statement} {i : Nat} (h : i ≤ (codeOf (before ++ [s])).length) :
    (codeOf (before ++ s :: rest)).take i = (codeOf (before ++ [s])).take i := by
  rw [List.append_cons before s rest, codeOf_append (before ++ [s]),
    List.take_append_of_le_length h]

/-- An index inside the code of a statement without a body is amid a press line: no other such
statement has more than one instruction. -/
theorem amid_of_leaf {x : Place} (hleaf : x.statement.isBlock = false) {i : Nat}
    (hi : x.start < i) (hi' : i < x.start + (x.code [x.statement]).length) : x.Amid i := by
  obtain ⟨before, scope, s⟩ := x
  cases s with
  | label | loop => simp [Statement.isBlock] at hleaf
  | play p => exact ⟨p, rfl, by exact_mod_cast hi, by exact_mod_cast hi'⟩
  | _ =>
    simp only [Place.code, codeAfter, lower, List.length_cons, List.length_nil] at hi'
    omega

/-- The code can be cut at every index that is not amid a press line. -/
theorem whole_take_or_amid (htree : Forest.Each (·.key? = none) tree)
    (h : Whole (codeOf before)) (scope : List String) {i : Nat}
    (hi : (codeOf before).length ≤ i) (hi' : i ≤ (codeOf (before ++ tree)).length) :
    Whole ((codeOf (before ++ tree)).take i) ∨ ∃ x ∈ places before scope tree, x.Amid i := by
  induction tree using Forest.induct generalizing before scope i with
  | nil =>
    rw [List.append_nil] at hi' ⊢
    rw [List.take_of_length_le (by omega)]
    exact .inl h
  | label name body pos rest ihBody ihRest =>
    obtain ⟨-, hbody, hrest⟩ := htree.label
    rw [places_label]
    rcases Nat.lt_or_ge (codeOf (before ++ [.label name body pos])).length i with hlt | hge
    · have hnext : Whole (codeOf (before ++ [.label name body pos])) := by
        rw [codeOf_label]
        exact whole_codeOf hbody h
      rw [List.append_cons] at hi' ⊢
      rcases ihRest hrest hnext scope hlt.le hi' with hw | ⟨x, hx, hamid⟩
      · exact .inl hw
      · exact .inr ⟨x, by simp [hx], hamid⟩
    · rw [codeOf_take_head hge]
      rw [codeOf_label] at hge ⊢
      rcases ihBody hbody h (scope ++ [name]) hi hge with hw | ⟨x, hx, hamid⟩
      · exact .inl hw
      · exact .inr ⟨x, by simp [hx], hamid⟩
  | loop count body pos rest ihBody ihRest =>
    obtain ⟨-, hbody, hrest⟩ := htree.loop
    have hnext : Whole (codeOf (before ++ [.loop count body pos])) := by
      rw [codeOf_loop]
      exact (whole_codeOf hbody h).jumpBack count _ pos
    rw [places_loop]
    rcases Nat.lt_or_ge (codeOf (before ++ body)).length i with hlt | hge
    · -- Behind the body stands one jump at most, so the cut is behind the loop.
      have hend : (codeOf (before ++ [.loop count body pos])).length ≤ i := by
        have hone := length_jumpBack_le count (codeOf before).length pos
        rw [codeOf_loop, List.length_append]
        omega
      rw [List.append_cons] at hi' ⊢
      rcases ihRest hrest hnext scope hend hi' with hw | ⟨x, hx, hamid⟩
      · exact .inl hw
      · exact .inr ⟨x, by simp [hx], hamid⟩
    · rw [codeOf_take_head (by rw [codeOf_loop, List.length_append]; omega), codeOf_loop,
        List.take_append_of_le_length hge]
      rcases ihBody hbody h scope hi hge with hw | ⟨x, hx, hamid⟩
      · exact .inl hw
      · exact .inr ⟨x, by simp [hx], hamid⟩
  | leaf s rest hleaf ih =>
    obtain ⟨hs, hrest⟩ := htree.leaf hleaf
    rw [places_leaf hleaf]
    rcases Nat.lt_or_ge i (codeOf (before ++ [s])).length with hlt | hge
    · rw [codeOf_take_head hlt.le]
      rw [codeOf_append] at hlt ⊢
      rcases Nat.eq_or_lt_of_le hi with hstart | hstart
      · rw [← hstart, List.take_left]
        exact .inl h
      · rw [List.length_append] at hlt
        exact .inr ⟨⟨before, scope, s⟩, by simp, amid_of_leaf hleaf hstart hlt⟩
    · rw [List.append_cons] at hi' ⊢
      rcases ih hrest (h.leaf hleaf hs) scope hge hi' with hw | ⟨x, hx, hamid⟩
      · exact .inl hw
      · exact .inr ⟨x, by simp [hx], hamid⟩

/-! ## The order of statements -/

/-- A statement comes before another one, and if it is not a block then its code does too. -/
def Place.Precedes (x y : Place) : Prop :=
  x.start ≤ y.start ∧
    (x.statement.isBlock = false → x.start + (x.code [x.statement]).length ≤ y.start)

theorem start_le_of_mem_places {x : Place} (hx : x ∈ places before scope tree) :
    (codeOf before).length ≤ x.start := by
  induction tree using Forest.induct generalizing before scope with
  | nil => simp at hx
  | label name body pos rest ihBody ihRest =>
    rw [places_label, List.mem_cons, List.mem_append] at hx
    rcases hx with rfl | hx | hx
    · exact le_rfl
    · exact ihBody hx
    · exact (length_codeOf_le _ _).trans (ihRest hx)
  | loop count body pos rest ihBody ihRest =>
    rw [places_loop, List.mem_cons, List.mem_append] at hx
    rcases hx with rfl | hx | hx
    · exact le_rfl
    · exact ihBody hx
    · exact (length_codeOf_le _ _).trans (ihRest hx)
  | leaf s rest hleaf ih =>
    rw [places_leaf hleaf, List.mem_cons] at hx
    rcases hx with rfl | hx
    · exact le_rfl
    · exact (length_codeOf_le _ _).trans (ih hx)

theorem stop_le_of_mem_places {x : Place} (hx : x ∈ places before scope tree) :
    x.start + (x.code [x.statement]).length ≤ (codeOf (before ++ tree)).length := by
  have h := (codeOf_prefix_place hx).length_le
  rwa [codeOf_append, List.length_append] at h

theorem precedes_of_mem_rest {x y : Place} {s : Statement}
    (hx : x.start + (x.code [x.statement]).length ≤ (codeOf (before ++ [s])).length)
    (hy : y ∈ places (before ++ [s]) scope rest) : x.Precedes y := by
  have h := start_le_of_mem_places hy
  exact ⟨by omega, fun _ => by omega⟩

/-- The places of a tree stand in the order of their code. -/
theorem places_pairwise (before : List Statement) (scope : List String) (tree : List Statement) :
    (places before scope tree).Pairwise Place.Precedes := by
  induction tree using Forest.induct generalizing before scope with
  | nil => simp
  | label name body pos rest ihBody ihRest =>
    rw [places_label, List.pairwise_cons, List.pairwise_append]
    refine ⟨fun y hy => ⟨?_, fun h => by cases h⟩, ihBody _ _, ihRest _ _, fun x hx y hy => ?_⟩
    · rcases List.mem_append.mp hy with hy | hy
      · exact start_le_of_mem_places hy
      · exact (length_codeOf_le _ _).trans (start_le_of_mem_places hy)
    · exact precedes_of_mem_rest (codeOf_label before name body pos ▸ stop_le_of_mem_places hx) hy
  | loop count body pos rest ihBody ihRest =>
    have hbody : codeOf (before ++ body) <+: codeOf (before ++ [.loop count body pos]) := by
      rw [codeOf_loop]
      exact List.prefix_append _ _
    rw [places_loop, List.pairwise_cons, List.pairwise_append]
    refine ⟨fun y hy => ⟨?_, fun h => by cases h⟩, ihBody _ _, ihRest _ _, fun x hx y hy => ?_⟩
    · rcases List.mem_append.mp hy with hy | hy
      · exact start_le_of_mem_places hy
      · exact (length_codeOf_le _ _).trans (start_le_of_mem_places hy)
    · exact precedes_of_mem_rest ((stop_le_of_mem_places hx).trans hbody.length_le) hy
  | leaf s rest hleaf ih =>
    rw [places_leaf hleaf, List.pairwise_cons]
    refine ⟨fun y hy => precedes_of_mem_rest ?_ hy, ih _ _⟩
    rw [codeOf_append, List.length_append]
    exact le_rfl

theorem not_amid_start {x : Place} (hx : x ∈ places [] [] tree) : ¬Amid tree x.start := by
  rintro ⟨y, hy, p, hp, hstart, hstop⟩
  have hapart : (places [] [] tree).Pairwise fun a b => a.Precedes b ∨ b.Precedes a :=
    (places_pairwise [] [] tree).imp .inl
  have : Std.Symm fun a b : Place => a.Precedes b ∨ b.Precedes a := ⟨fun _ _ => Or.symm⟩
  have hne : x ≠ y := fun e => by
    rw [e] at hstart
    omega
  rcases hapart.forall hx hy hne with h | h
  · have := h.1
    omega
  · have := h.2 (by rw [hp]; rfl)
    rw [hp] at this
    omega

theorem code_play (x : Place) (p : Play) :
    x.code [.play p] = pressed (Defaults.after {} x.before) p := by
  simp [Place.code, codeAfter, lower]

theorem not_amid_jump {i : Nat} {j : Jump} (h : (codeOf tree)[i]? = some (.jump j)) :
    ¬Amid tree i ∧ ¬Amid tree (i + 1) := by
  have hout : ∀ y ∈ places [] [] tree, ∀ p, y.statement = .play p →
      ¬(y.start ≤ i ∧ i < y.start + (y.code [.play p]).length) := by
    rintro y hy p hp ⟨hstart, hstop⟩
    obtain ⟨behind, hcode⟩ := codeOf_prefix_place hy
    rw [List.nil_append] at hcode
    rw [← hcode, codeOf_append, hp, List.append_assoc, List.getElem?_append_right hstart,
      List.getElem?_append_left (by simp only [Place.start, Place.code] at hstart hstop; omega)] at h
    have hmem : .jump j ∈ y.code [.play p] := List.mem_of_getElem? h
    rw [code_play] at hmem
    cases isJump_pressed _ hmem
  constructor
  · rintro ⟨y, hy, p, hp, hstart, hstop⟩
    exact hout y hy p hp ⟨by omega, by omega⟩
  · rintro ⟨y, hy, p, hp, hstart, hstop⟩
    exact hout y hy p hp ⟨by omega, by omega⟩

theorem not_amid_length : ¬Amid tree (codeOf tree).length := by
  rintro ⟨y, hy, p, hp, -, hstop⟩
  have h := stop_le_of_mem_places hy
  rw [hp, List.nil_append] at h
  omega

end

/-! ## Linked programs -/

section
variable {tree : List Statement} {name : Option String} {p : Program}

theorem start_of_lookup (h : link tree name = .ok p) {label : String} {t : Int}
    (hl : p.labels.lookup label = some t) : ∃ x ∈ places [] [] tree, t = x.start := by
  have hdecl : declarations {} 0 tree = (places [] [] tree).filterMap Place.declaration? := by
    rw [← declarations_eq]
    simp [codeOf, lower, Defaults.after]
  rw [(link_ok h).2.1, lookup_labels] at hl
  obtain ⟨dec, hdec, rfl⟩ := start?_ok hl
  rw [hdecl] at hdec
  obtain ⟨x, hx, hlabel⟩ := List.mem_filterMap.mp hdec
  refine ⟨x, hx, ?_⟩
  unfold Place.declaration? at hlabel
  split at hlabel
  · cases hlabel
    rfl
  · cases hlabel

theorem start_of_jump (htree : ∀ j, .jump j ∈ nodes tree → j.target = none)
    (h : link tree name = .ok p) {i : Int} {j : Jump} {t : Int}
    (hj : p.at? i = some (.jump j)) (ht : j.target = some t) :
    ∃ x ∈ places [] [] tree, t = x.start := by
  obtain ⟨x, hx, k, j₀, hleaves, -, hr⟩ := link_leaves h hj
  rw [resolved, Statement.jump.injEq] at hr
  cases hleaves with
  | jump hstmt =>
    have hnone : j₀.target = none := by
      refine htree j₀ ?_
      rw [← statements_places [] [] tree, ← hstmt]
      exact List.mem_map_of_mem hx
    rw [hr, hnone, Option.none_or] at ht
    exact start_of_lookup h ht
  | loop _ _ =>
    rw [hr, Option.some_or, Option.some.injEq] at ht
    exact ⟨x, hx, ht.symm⟩

theorem press_slice (h : link tree name = .ok p) {x : Place} (hx : x ∈ places [] [] tree) {l : Play}
    (hl : x.statement = .play l) :
    (p.instructions.extract x.start (x.start + (x.code [.play l]).length)).toList =
      x.code [.play l] := by
  obtain ⟨behind, hbehind⟩ := codeOf_prefix_place hx
  rw [List.nil_append, hl, codeOf_append] at hbehind
  have hresolved : (x.code [.play l]).map (resolved p.labels) = x.code [.play l] := by
    refine (List.map_congr_left fun s hs => ?_).trans (List.map_id _)
    rw [code_play] at hs
    cases s with
    | jump j => cases isJump_pressed _ hs
    | _ => rfl
  rw [Array.toList_extract, link_code h, ← hbehind, List.map_append, List.map_append]
  simpa [Place.start, Place.code] using hresolved

/-- The notes that sound when the code of a program has been passed from its start up to an index. -/
def soundingAt (p : Program) (i : Int) : Sounding :=
  (p.instructions.toList.take i.toNat).foldl Sounding.pass {}

theorem soundingAt_next {i : Int} {s : Statement} (hs : p.at? i = some s) :
    soundingAt p (i + 1) = (soundingAt p i).pass s := by
  obtain ⟨h0, hat⟩ := Program.at?_eq_some.mp hs
  rw [soundingAt, Int.toNat_add h0 (by omega), Int.toNat_one, List.take_add_one, hat,
    Option.toList_some, List.foldl_append]
  rfl

end

/-- The program `p` comes from a tree whose only notes are those of its press lines. -/
structure Presses (tree : List Statement) (p : Program) : Prop where
  range : Forest.Each Statement.InRange tree
  keys : Forest.Each (·.key? = none) tree
  linked : ∃ name, link tree name = .ok p

theorem Presses.of_compile {text : String} {name : Option String} {p : Program} {tree : List Statement}
    (h : compile text name = .ok p) (hparse : Source.parse text name = .ok tree)
    (hnotes : ∀ n, .send n ∉ nodes tree) : Presses tree p := by
  obtain ⟨tree', hparse', hlink⟩ := compile_ok h
  cases hparse.symm.trans hparse'
  refine ⟨Source.parse_inRange hparse, fun s hs => ?_, name, hlink⟩
  cases s with
  | send n => exact absurd hs (hnotes n)
  | _ => rfl

namespace Presses
variable {tree : List Statement} {p : Program} (h : Presses tree p)
include h

theorem wellFormed : p.WellFormed := by
  obtain ⟨name, hlink⟩ := h.linked
  exact program_wellFormed h.range hlink

theorem jump_from {i : Int} {j : Jump} (hj : p.at? i = some (.jump j)) :
    ¬Amid tree i ∧ ¬Amid tree (i + 1) := by
  obtain ⟨name, hlink⟩ := h.linked
  obtain ⟨x, hx, k, j₀, hleaves, rfl, -⟩ := link_leaves hlink hj
  exact not_amid_jump (by simpa using hleaves.getElem? hx)

theorem jump_to {i : Int} {j : Jump} {t : Int} (hj : p.at? i = some (.jump j))
    (ht : j.target = some t) : ¬Amid tree t := by
  obtain ⟨name, hlink⟩ := h.linked
  obtain ⟨x, hx, rfl⟩ := start_of_jump (fun j hj => (h.range _ hj).1) hlink hj ht
  exact not_amid_start hx

theorem soundingAt_eq_empty {i : Int} (hi : 0 ≤ i ∧ i ≤ p.length) (hamid : ¬Amid tree i) :
    soundingAt p i = {} := by
  obtain ⟨name, hlink⟩ := h.linked
  have hnil : codeOf [] = [] := by simp [codeOf, lower]
  have hpass : ∀ (s : Sounding) (st : Statement), s.pass (resolved p.labels st) = s.pass st := by
    intro s st
    cases st <;> rfl
  rw [link_length hlink] at hi
  rw [soundingAt, link_code hlink, ← List.map_take, List.foldl_map]
  simp only [hpass]
  rcases whole_take_or_amid h.keys (hnil ▸ Whole.nil) [] (i := i.toNat) (by simp [hnil])
      (by rw [List.nil_append]; omega) with hw | ⟨x, hx, hin⟩
  · exact hw.passed
  · rw [Int.toNat_of_nonneg hi.1] at hin
    exact absurd ⟨x, hx, hin⟩ hamid

theorem soundingAt_jump {i : Int} {j : Jump} {t : Int} (hj : p.at? i = some (.jump j))
    (ht : j.target = some t) : soundingAt p i = {} ∧ soundingAt p t = {} := by
  have hi := Program.lt_of_at? hj
  obtain ⟨t', ht', hr⟩ := (h.wellFormed.playable _ (Program.mem_of_at? hj)).1
  cases ht.symm.trans ht'
  exact ⟨h.soundingAt_eq_empty ⟨hi.1, by omega⟩ (h.jump_from hj).1,
    h.soundingAt_eq_empty hr (h.jump_to hj ht)⟩

end Presses

end Link

namespace Machine

open Link (Amid soundingAt places)

/-! ## Runs -/

section
variable {m : Machine}

theorem Stepped.halted_ip {m' : Machine} {out : Step} (hs : Stepped m m' out)
    (hm : m.state = .halted → m.ip = m.program.length) (h : m'.state = .halted) :
    m'.ip = m'.program.length := by
  cases hs with
  | finished => exact hm h
  | ended _ hend => exact hend
  | _ => cases h

theorem Stepped.jump_ip {m' : Machine} {out : Step} (hs : Stepped m m' out) {j : Jump}
    (hj : m.instruction? = some (.jump j)) :
    m'.ip = m.ip ∨ m'.ip = m.ip + 1 ∨ ∃ t, j.target = some t ∧ m'.ip = t := by
  cases hs with
  | sent hi hnote =>
    rw [hj] at hi
    cases hi
    cases hnote
  | waited hi | tempoSet hi =>
    rw [hj] at hi
    cases hi
  | @jumped j' t cs taken hi ht =>
    rw [hj] at hi
    cases hi
    cases taken with
    | true => exact .inr (.inr ⟨t, ht, rfl⟩)
    | false => exact .inr (.inl rfl)
  | _ => exact .inl rfl

theorem halted_ip {p : Program} (moves : List Move) (h : ((load p).after moves).state = .halted) :
    ((load p).after moves).ip = p.length := by
  have hend := after_induct (P := fun m => m.state = .halted → m.ip = m.program.length)
    (fun m a hm => ?_) (m := load p) (fun h => by cases h) moves
  · rw [hend h, after_program]
    rfl
  · cases a with
    | step => exact m.stepped.halted_ip hm
    | cancel =>
      show m.cancel.state = .halted → m.cancel.ip = m.cancel.program.length
      unfold cancel
      split
      · exact hm
      · exact fun h => by cases h
    | reset => exact fun h => by cases h

/-- The notes that sound are those of the part of a press line that the machine has passed. -/
structure Keeping (p : Program) (m : Machine) (es : List Event) : Prop where
  sound : m.Sound
  program : m.program = p
  table : Sounding.after {} es = soundingAt p m.ip

variable {tree : List Statement} {p : Program} {es : List Event}

/-- The step lemma. Only an instruction with a note changes the table, and jumps stand and land where
none sounds. -/
theorem Keeping.step (h : Keeping p m es) (hp : Link.Presses tree p) :
    Keeping p m.step.1 (es ++ m.step.2.event?.toList) := by
  have hs := m.stepped
  refine ⟨h.sound.of_stepped hs, hs.program.trans h.program, ?_⟩
  have hat : ∀ {s : Statement}, m.instruction? = some s → p.at? m.ip = some s :=
    fun hi => h.program ▸ (instruction?_eq_some.mp hi).2
  generalize m.step.1 = m', m.step.2 = out at hs
  cases hs with
  | @sent _ e hi hnote =>
    obtain ⟨⟨n, rfl⟩, -⟩ := h.sound.noteOf hi hnote
    show Sounding.after {} (es ++ [e]) = soundingAt p (m.ip + 1)
    rw [Sounding.after_concat, h.table, Link.soundingAt_next (hat hi),
      Sounding.track_event hnote.of_send]
  | waited hi | tempoSet hi =>
    show Sounding.after {} (es ++ []) = soundingAt p (m.ip + 1)
    rw [List.append_nil, h.table, Link.soundingAt_next (hat hi)]
    rfl
  | @jumped j t cs taken hi ht _ _ =>
    obtain ⟨hfrom, hto⟩ := hp.soundingAt_jump (hat hi) ht
    show Sounding.after {} (es ++ []) = soundingAt p (if taken then t else m.ip + 1)
    rw [List.append_nil, h.table, hfrom]
    cases taken with
    | true => exact hto.symm
    | false =>
      rw [if_neg Bool.false_ne_true, Link.soundingAt_next (hat hi), hfrom]
      rfl
  | _ => exact (congrArg (Sounding.after {}) (List.append_nil es)).trans h.table

theorem Keeping.cancel (h : Keeping p m es) : Keeping p m.cancel es := by
  refine ⟨h.sound.cancel, (cancel_program m).trans h.program, ?_⟩
  have hip : m.cancel.ip = m.ip := by
    unfold Machine.cancel
    split <;> rfl
  exact h.table.trans (congrArg (soundingAt p) hip.symm)

/-- The run lemma. -/
theorem keeping_after (hp : Link.Presses tree p) (moves : List Move) :
    Keeping p ((load p).after moves) ((load p).emissions [] moves) := by
  have hload : Keeping p (load p) [] := ⟨load_sound hp.wellFormed, rfl, rfl⟩
  refine emissions_induct (fun m es a h => ?_) hload moves
  cases a with
  | step => exact h.step hp
  | cancel => exact h.cancel
  | reset => exact h.program ▸ ⟨load_sound h.sound.program, rfl, rfl⟩

theorem Keeping.eq_empty (h : Keeping p m es) (hp : Link.Presses tree p) (hamid : ¬Amid tree m.ip) :
    Sounding.after {} es = {} := by
  have hip := h.sound.pointer
  rw [h.program] at hip
  exact h.table.trans (hp.soundingAt_eq_empty hip hamid)

theorem Keeping.jump (h : Keeping p m es) (hp : Link.Presses tree p) {j : Jump}
    (hj : m.instruction? = some (.jump j)) : ¬Amid tree m.step.1.ip := by
  have hat : p.at? m.ip = some (.jump j) := h.program ▸ (instruction?_eq_some.mp hj).2
  obtain ⟨hstay, hnext⟩ := hp.jump_from hat
  rcases m.stepped.jump_ip hj with hip | hip | ⟨t, ht, hip⟩
  · rwa [hip]
  · rwa [hip]
  · rw [hip]
    exact hp.jump_to hat ht

end

/-- **A program of press lines leaves no note hanging.** Whatever moves a machine that was loaded with
a compiled program without notes of their own has made, no note sounds of those that it has emitted
since it was last reset, unless it is amid a press line, which a machine that halted is not. Jumps
never lead it there. The instructions of a press line are its notes, turned on and off again. -/
theorem compile_leaves_none_hanging {text : String} {name : Option String} {p : Program}
    {tree : List Statement} (h : compile text name = .ok p)
    (hparse : Source.parse text name = .ok tree) (hnotes : ∀ n, .send n ∉ nodes tree)
    (moves : List Move) :
    (¬Amid tree ((load p).after moves).ip →
        Sounding.after {} ((load p).emissions [] moves) = {}) ∧
      (((load p).after moves).state = .halted → ¬Amid tree ((load p).after moves).ip ∧
        Sounding.after {} ((load p).emissions [] moves) = {}) ∧
      (∀ j, ((load p).after moves).instruction? = some (.jump j) →
        ¬Amid tree ((load p).after moves).step.1.ip) ∧
      (∀ i j, p.at? i = some (.jump j) → ∃ t, j.target = some t ∧ ¬Amid tree t) ∧
      ∀ x ∈ places [] [] tree, ∀ l, x.statement = .play l →
        (p.instructions.extract x.start (x.start + (x.code [.play l]).length)).toList =
          x.code [.play l] := by
  have hp := Link.Presses.of_compile h hparse hnotes
  obtain ⟨name, hlink⟩ := hp.linked
  have hkeep := keeping_after hp moves
  refine ⟨hkeep.eq_empty hp, fun hhalt => ?_, fun j hj => hkeep.jump hp hj, fun i j hj => ?_,
    fun x hx l hl => Link.press_slice hlink hx hl⟩
  · have hout : ¬Amid tree ((load p).after moves).ip := by
      rw [halted_ip moves hhalt, Link.link_length hlink]
      exact Link.not_amid_length
    exact ⟨hout, hkeep.eq_empty hp hout⟩
  · obtain ⟨t, ht, -⟩ := Link.link_site hlink hj
    exact ⟨t, ht, hp.jump_to hj ht⟩

theorem compile_leaves_none_hanging_sample :
    compile Source.sampleText none = .ok sampleProgram ∧
      Source.parse Source.sampleText none = .ok Source.sampleTree ∧
      (∀ n, .send n ∉ nodes Source.sampleTree) ∧
      ((load sampleProgram).steps 21).state = .halted ∧
      Sounding.after {} ((load sampleProgram).emitted 21) = {} := by
  have hnotes : ∀ n, .send n ∉ nodes Source.sampleTree := by
    intro n hn
    simp [Source.sampleTree, nodes] at hn
  have hhalt : ((load sampleProgram).steps 21).state = .halted := by
    decide +kernel
  obtain ⟨-, hsilent, -⟩ := compile_leaves_none_hanging compile_sample Source.parse_sample hnotes
    (List.replicate 21 .step)
  exact ⟨compile_sample, Source.parse_sample, hnotes, hhalt, (hsilent hhalt).2⟩

end Machine

end Ostinato
