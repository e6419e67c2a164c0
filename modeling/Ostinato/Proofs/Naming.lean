import Ostinato.Proofs.Layout

/-!
# What a compiled program is written with

The reader takes a name only if it is an identifier, and a number only if it is short enough to be
converted. So labels, jumps and outputs are named by identifiers in the tree, and its numbers can be
printed and converted again. Linking makes up one kind of name only, that of the jump which ends a
loop, and no identifier is spelled like it; it makes up no number but the count of that jump. What the
machine checks says nothing of this; it matters where a program is written out again.
-/

namespace Ostinato

open Text (IsShort digitLimit)

/-- The output that a statement names is named by an identifier, and its numbers are short. What is in
a range of a few numbers is short anyway. -/
def Statement.Legible : Statement → Prop
  | .tempo t => IsShort t.bpm ∧ IsShort t.ticksPerBeat
  | .send s => ∀ o, s.output = some o → Source.isIdentifier o = true
  | .wait w => IsShort w.amount
  | .jump j => ∀ n, j.count = some n → IsShort n
  | .loop count _ _ => ∀ n, count = some n → IsShort n
  | .play p => (∀ o, p.output = some o → Source.isIdentifier o = true) ∧
      ∀ w, p.duration = some w → IsShort w.amount
  | .setting s => (∀ o, s.value = .name o → Source.isIdentifier o = true) ∧
      ∀ w, s.value = .duration w → IsShort w.amount
  | _ => True

namespace Source

def Line.Legible : Line → Prop
  | .label .. => True
  | .loop count _ => ∀ n, count = some n → IsShort n
  | .plain s => s.Legible

theorem CountAt.isShort {least : Int} {count : Option Int} {ts rest : List Token}
    (h : CountAt digitLimit least count ts rest) : ∀ n, count = .some n → IsShort n := by
  rintro n rfl
  cases h with
  | some hn => exact hn.isShort

theorem OutputAt.isIdentifier {o : Option String} {ts : List Token} (h : OutputAt o ts) :
    ∀ name, o = some name → isIdentifier name = true := by
  rintro name rfl
  cases h with
  | named _ _ _ hn => exact hn.2.1

/-- What a modifier names is named by an identifier, and its duration is short. -/
def Assignment.Legible (a : Assignment) : Prop :=
  (∀ name, a.output? = some name → isIdentifier name = true) ∧
    ∀ w, a.duration? = some w → IsShort w.amount

theorem ModifierAt.legible {a : Assignment} {ts rest : List Token}
    (h : ModifierAt digitLimit a ts rest) : a.Legible := by
  cases h with
  | output _ hn => exact ⟨fun name e => Option.some.inj e ▸ hn.2.1, nofun⟩
  | duration _ hn => exact ⟨nofun, fun w e => Option.some.inj e ▸ hn.isShort⟩
  | _ => exact ⟨nofun, nofun⟩

theorem ModifiersAt.legible {as : List Assignment} {ts : List Token}
    (h : ModifiersAt digitLimit as ts) : ∀ a ∈ as, a.Legible := by
  induction h with
  | none => simp
  | more ha _ ih => exact List.forall_mem_cons.mpr ⟨ha.legible, ih⟩

theorem Sentence.legible {ts : List Token} {l : Line} (h : Sentence digitLimit ts l) :
    l.Legible := by
  cases h with
  | tempo _ hb _ _ hn => exact ⟨hb.isShort, hn.isShort⟩
  | label => exact trivial
  | loop _ hcount => exact hcount.isShort
  | send _ _ _ _ _ _ _ _ _ ho => exact ho.isIdentifier
  | wait _ hn => exact hn.isShort
  | jump _ _ hcount => exact hcount.isShort
  | play _ _ _ has =>
    refine ⟨fun o ho => ?_, fun w hw => ?_⟩
    · obtain ⟨a, ha, hname⟩ := List.exists_of_findSome?_eq_some ho
      exact (has.legible a ha).1 o hname
    · obtain ⟨a, ha, hduration⟩ := List.exists_of_findSome?_eq_some hw
      exact (has.legible a ha).2 w hduration
  | defaultOutput _ _ hn => exact ⟨fun o ho => SettingValue.name.inj ho ▸ hn.2.1, nofun⟩
  | defaultDuration _ _ hn => exact ⟨nofun, fun w hw => SettingValue.duration.inj hw ▸ hn.isShort⟩
  | defaultVelocity | defaultChannel | signature => exact ⟨nofun, nofun⟩

theorem parse_legible {text : String} {name : Option String} {tree : List Statement}
    (h : parse text name = .ok tree) : Forest.Each Statement.Legible tree := by
  obtain ⟨rs, hrs, -, hl⟩ := parse_ok h
  intro s hs
  have hmem : Line.ofStatement s ∈ rs.map Row.line := hl ▸ List.mem_map_of_mem hs
  obtain ⟨r, hr, hline⟩ := List.mem_map.mp hmem
  obtain ⟨ts, hread⟩ := textRows_ok hrs r hr
  have hlegible := (sentence_of_line hread).legible
  rw [hline] at hlegible
  cases s with
  | label => exact trivial
  | _ => exact hlegible

end Source

namespace Link

def Defaults.Legible (d : Defaults) : Prop :=
  (∀ o, d.output = .name o → Source.isIdentifier o = true) ∧
    ∀ w, d.duration = .duration w → IsShort w.amount

theorem Defaults.Legible.set {d : Defaults} (hd : d.Legible) {s : Setting}
    (hs : (Statement.setting s).Legible) : (d.set s).Legible := by
  unfold Defaults.set
  split
  all_goals first | exact hd | exact ⟨hs.1, hd.2⟩ | exact ⟨hd.1, hs.2⟩

theorem note_legible {on : Bool} {channel velocity output : SettingValue} {pos : Pos} {pitch : Int}
    (h : ∀ o, output = .name o → Source.isIdentifier o = true) :
    (note on channel velocity output pos pitch).Legible := by
  unfold note
  split
  · rename_i c v o ho
    intro name hname
    dsimp only at hname
    subst hname
    cases output with
    | name s =>
      cases ho
      exact h _ rfl
    | _ => cases ho
  · exact trivial

theorem pressWait?_isShort {d : Defaults} (hd : d.Legible) {p : Play}
    (hp : (Statement.play p).Legible) {w : Wait} (hw : pressWait? d p = some w) :
    IsShort w.amount := by
  unfold pressWait? at hw
  split at hw <;> cases hw
  · exact hp.2 _ ‹_›
  · exact hd.2 _ ‹_›

theorem pressed_legible {d : Defaults} (hd : d.Legible) {p : Play}
    (hp : (Statement.play p).Legible) : ∀ s ∈ pressed d p, s.Legible := by
  have houtput : ∀ o, (p.output.map .name).getD d.output = .name o →
      Source.isIdentifier o = true := by
    intro o ho
    cases hpo : p.output with
    | none =>
      rw [hpo] at ho
      exact hd.1 o ho
    | some s =>
      rw [hpo] at ho
      cases ho
      exact hp.1 _ hpo
  intro s hs
  cases pressPart_of_mem hs with
  | on | off => exact note_legible houtput
  | @wait w hw =>
    show IsShort w.amount
    exact pressWait?_isShort hd hp hw

theorem jumpBack_legible {count : Option Int} (h : ∀ n, count = some n → IsShort n) {base : Nat}
    {pos : Pos} : ∀ s ∈ jumpBack count base pos, s.Legible := by
  intro s hs
  obtain ⟨-, rfl⟩ := mem_jumpBack.mp hs
  intro n hn
  obtain ⟨k, hk, rfl⟩ := Option.map_eq_some_iff.mp hn
  exact (Int.sub_lt_self k Int.one_pos).trans (h k hk)

theorem lower_legible {tree : List Statement} {d : Defaults} {base : Nat} (hd : d.Legible)
    (h : Forest.Each Statement.Legible tree) : ∀ s ∈ lower d base tree, s.Legible := by
  induction tree using Forest.induct generalizing d base with
  | nil => simp [lower]
  | label name body pos rest ihBody ihRest =>
    obtain ⟨-, hbody, hrest⟩ := h.label
    rw [lower]
    exact List.forall_mem_append.mpr ⟨ihBody hd hbody, ihRest hd hrest⟩
  | loop count body pos rest ihBody ihRest =>
    obtain ⟨hcount, hbody, hrest⟩ := h.loop
    rw [lower]
    exact List.forall_mem_append.mpr ⟨ihBody hd hbody,
      List.forall_mem_append.mpr ⟨jumpBack_legible hcount, ihRest hd hrest⟩⟩
  | leaf s rest hleaf ih =>
    obtain ⟨hs, hrest⟩ := h.leaf hleaf
    cases s with
    | label | loop => simp [Statement.isBlock] at hleaf
    | setting s =>
      rw [lower]
      exact ih (hd.set hs) hrest
    | play p =>
      rw [lower]
      exact List.forall_mem_append.mpr ⟨pressed_legible hd hs, ih hd hrest⟩
    | _ =>
      rw [lower]
      · exact List.forall_mem_cons.mpr ⟨hs, ih hd hrest⟩
      all_goals simp

theorem legible_defaults : ({} : Defaults).Legible :=
  ⟨nofun, fun w hw => SettingValue.duration.inj hw ▸ Text.isShort_of_lt (by decide)⟩

theorem link_legible {tree : List Statement} {name : Option String} {p : Program}
    (htree : Forest.Each Statement.Legible tree) (h : link tree name = .ok p) :
    ∀ s ∈ p.instructions.toList, s.Legible := by
  rw [(link_ok h).1]
  intro s hs
  obtain ⟨s₀, hs₀, rfl⟩ := List.mem_map.mp hs
  have hlegible := lower_legible legible_defaults htree s₀ hs₀
  cases s₀ <;> exact hlegible

theorem link_labels {tree : List Statement} {name : Option String} {p : Program}
    (h : link tree name = .ok p) : p.labels.map (·.1) = labelNames (Forest.nodes tree) := by
  rw [(link_ok h).2.1, List.map_map, ← names_declarations]
  rfl

theorem isIdentifier_of_mem_labelNames {tree : List Statement}
    (htree : Forest.Each Statement.InRange tree) {name : String}
    (h : name ∈ labelNames (Forest.nodes tree)) : Source.isIdentifier name = true := by
  obtain ⟨s, hs, hname⟩ := List.mem_filterMap.mp h
  cases s with
  | label name' body pos =>
    cases hname
    exact htree _ hs
  | _ => cases hname

end Link

end Ostinato
