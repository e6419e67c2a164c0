import Ostinato.Proofs.Playable

/-!
# Which trees link

Linking refuses a tree for one of three reasons: a name is given twice, a setting stands behind the
header, or a jump names a label that is not there. `Linkable` says this of the tree as a whole, and
`problem?` is the statement that is to blame: the first, in program order, that repeats a name or is
misplaced, and failing that the first jump that goes nowhere.

The walk knows the statements before it only by the names it has collected and by whether it is
still in the header. `Reflects` is that invariant, and `emitAll_outcome` says that under it the walk
stops exactly at the first offender among the statements that follow. Nothing else stops it when the
numbers of the tree are in range: a press line always has its notes.
-/

namespace Ostinato

/-! ## The rules -/

namespace Statement

def labelName? : Statement → Option String
  | .label name _ _ => some name
  | _ => none

def settingName? : Statement → Option String
  | .setting s => some s.name
  | _ => none

def isHeader : Statement → Bool
  | .tempo _ | .setting _ => true
  | _ => false

end Statement

def labelNames (l : List Statement) : List String := l.filterMap Statement.labelName?

def settingNames (l : List Statement) : List String := l.filterMap Statement.settingName?

open Forest (nodes)

/-- What a tree has to be for linking to succeed. -/
structure Linkable (tree : List Statement) : Prop where
  /-- No two labels, wherever they stand, have the same name. -/
  labels : (labelNames (nodes tree)).Nodup
  /-- Every jump names a label of the tree. -/
  jumps : ∀ j, .jump j ∈ nodes tree → j.label ∈ labelNames (nodes tree)
  /-- Every setting is at the top level, and all before it are tempo changes and settings. -/
  header : ∀ before s after, nodes tree = before ++ .setting s :: after →
    (∃ rest, tree = before ++ .setting s :: rest) ∧ ∀ t ∈ before, t.isHeader = true
  /-- No two settings have the same name. -/
  settings : (settingNames (nodes tree)).Nodup

namespace Statement

/-- Whether a statement that comes after `before` repeats a name or is a setting behind the header. -/
def Offends (before : List Statement) : Statement → Prop
  | .label name _ _ => name ∈ labelNames before
  | .setting s => s.name ∈ settingNames before ∨ ∃ t ∈ before, t.isHeader = false
  | _ => False

instance (before : List Statement) : (s : Statement) → Decidable (s.Offends before)
  | .label name _ _ => inferInstanceAs (Decidable (name ∈ labelNames before))
  | .setting s =>
    inferInstanceAs (Decidable (s.name ∈ settingNames before ∨ ∃ t ∈ before, t.isHeader = false))
  | .tempo _ | .send _ | .looseSend _ | .wait _ | .jump _ | .loop .. | .play _ => .isFalse id

/-- Whether a statement is a jump to a label that is none of `names`. -/
def goesNowhere (names : List String) : Statement → Bool
  | .jump j => !names.contains j.label
  | _ => false

end Statement

/-- The first of some statements that offends, `before` being what comes before them all. -/
def offender? (before : List Statement) : List Statement → Option Statement
  | [] => none
  | s :: rest => if s.Offends before then some s else offender? (before ++ [s]) rest

/-- The statement for which a tree is refused. -/
def problem? (tree : List Statement) : Option Statement :=
  (offender? [] (nodes tree)).or
    ((nodes tree).find? (·.goesNowhere (labelNames (nodes tree))))

/-! ## The first offender -/

section
variable (s : Statement) (l l' : List Statement)

@[simp] theorem labelNames_nil : labelNames [] = [] := rfl

@[simp] theorem settingNames_nil : settingNames [] = [] := rfl

@[simp] theorem labelNames_cons : labelNames (s :: l) = s.labelName?.toList ++ labelNames l := by
  unfold labelNames
  cases hs : s.labelName? <;> simp [hs]

@[simp] theorem settingNames_cons :
    settingNames (s :: l) = s.settingName?.toList ++ settingNames l := by
  unfold settingNames
  cases hs : s.settingName? <;> simp [hs]

@[simp] theorem labelNames_append : labelNames (l ++ l') = labelNames l ++ labelNames l' :=
  List.filterMap_append

@[simp] theorem settingNames_append :
    settingNames (l ++ l') = settingNames l ++ settingNames l' :=
  List.filterMap_append

theorem labelNames_nodes_label (name : String) (body : List Statement) (pos : Pos)
    (rest : List Statement) :
    labelNames (nodes (.label name body pos :: rest)) =
      name :: (labelNames (nodes body) ++ labelNames (nodes rest)) := by
  simp [Forest.nodes_label, Statement.labelName?]

theorem labelNames_nodes_loop (count : Option Int) (body : List Statement) (pos : Pos)
    (rest : List Statement) :
    labelNames (nodes (.loop count body pos :: rest)) =
      labelNames (nodes body) ++ labelNames (nodes rest) := by
  simp [Forest.nodes_loop, Statement.labelName?]

theorem offender?_append (before : List Statement) :
    offender? before (l ++ l') = (offender? before l).or (offender? (before ++ l) l') := by
  induction l generalizing before with
  | nil => simp [offender?]
  | cons s rest ih =>
    by_cases hs : s.Offends before
    · simp [offender?, hs]
    · simp [offender?, hs, ih]

/-- The part of the header rule that can be read off the statements in program order. -/
def HeaderFirst : Prop :=
  ∀ before s after, l = before ++ .setting s :: after → ∀ t ∈ before, t.isHeader = true

theorem headerFirst_concat :
    HeaderFirst (l ++ [s]) ↔
      HeaderFirst l ∧ ∀ s', s = .setting s' → ∀ t ∈ l, t.isHeader = true := by
  constructor
  · intro h
    refine ⟨fun before s' after e => h before s' (after ++ [s]) (by simp [e]), ?_⟩
    rintro s' rfl
    exact h l s' [] rfl
  · rintro ⟨hl, hs⟩ before s' after e
    rcases List.eq_nil_or_concat after with rfl | ⟨after, x, rfl⟩
    · obtain ⟨rfl, e⟩ := List.append_inj' e rfl
      exact hs s' (by simpa using e)
    · rw [List.concat_eq_append, ← List.cons_append, ← List.append_assoc] at e
      exact hl before s' after (List.append_inj' e rfl).1

end

theorem offender?_eq_none_iff {l : List Statement} :
    offender? [] l = none ↔
      (labelNames l).Nodup ∧ (settingNames l).Nodup ∧ HeaderFirst l := by
  -- The last statement is judged by all the others, so the list grows at its end.
  induction l using List.reverseRecOn with
  | nil => simp [offender?, HeaderFirst]
  | append_singleton l s ih =>
    have hlast : offender? l [s] = none ↔ ¬ s.Offends l := by simp [offender?]
    rw [offender?_append, Option.or_eq_none_iff, ih, List.nil_append, hlast, headerFirst_concat]
    cases s with
    | label name body pos =>
      have hnodup : (labelNames l ++ [name]).Nodup ↔ (labelNames l).Nodup ∧ name ∉ labelNames l := by
        rw [← List.concat_eq_append, List.nodup_concat, and_comm]
      simp only [Statement.Offends, Statement.labelName?, Statement.settingName?,
        labelNames_append, settingNames_append, labelNames_cons, settingNames_cons, labelNames_nil,
        settingNames_nil, Option.toList_some, Option.toList_none, List.append_nil, hnodup,
        reduceCtorEq, false_implies, implies_true, and_true]
      tauto
    | setting s =>
      have hnodup : (settingNames l ++ [s.name]).Nodup ↔
          (settingNames l).Nodup ∧ s.name ∉ settingNames l := by
        rw [← List.concat_eq_append, List.nodup_concat, and_comm]
      simp only [Statement.Offends, Statement.labelName?, Statement.settingName?,
        labelNames_append, settingNames_append, labelNames_cons, settingNames_cons, labelNames_nil,
        settingNames_nil, Option.toList_some, Option.toList_none, List.append_nil, hnodup,
        Statement.setting.injEq, forall_eq', not_or, not_exists, not_and, Bool.not_eq_false]
      tauto
    | _ => simp [Statement.Offends, Statement.labelName?, Statement.settingName?]

theorem topLevel_of_nodes {tree before after : List Statement} {s : Statement}
    (h : nodes tree = before ++ s :: after) (hb : ∀ t ∈ before, t.isHeader = true) :
    ∃ rest, tree = before ++ s :: rest := by
  induction before generalizing tree with
  | nil =>
    cases tree with
    | nil => simp at h
    | cons t rest =>
      obtain ⟨l, hl⟩ := Forest.nodes_cons t rest
      rw [hl, List.nil_append, List.cons.injEq] at h
      exact ⟨rest, by rw [h.1, List.nil_append]⟩
  | cons b before ih =>
    cases tree with
    | nil => simp at h
    | cons t rest =>
      obtain ⟨l, hl⟩ := Forest.nodes_cons t rest
      obtain rfl : t = b := by
        rw [hl, List.cons_append, List.cons.injEq] at h
        exact h.1
      have hleaf : t.isBlock = false := by
        have ht := hb t (by simp)
        cases t <;> simp_all [Statement.isHeader, Statement.isBlock]
      rw [Forest.nodes_leaf hleaf, List.cons_append, List.cons.injEq] at h
      obtain ⟨rest', rfl⟩ := ih h.2 fun u hu => hb u (by simp [hu])
      exact ⟨rest', rfl⟩

theorem problem?_eq_none_iff {tree : List Statement} : problem? tree = none ↔ Linkable tree := by
  rw [problem?, Option.or_eq_none_iff, offender?_eq_none_iff, List.find?_eq_none]
  constructor
  · rintro ⟨⟨hl, hs, hh⟩, hj⟩
    refine ⟨hl, fun j hmem => ?_, fun before s after e => ?_, hs⟩
    · simpa [Statement.goesNowhere] using hj _ hmem
    · have hb := hh before s after e
      exact ⟨topLevel_of_nodes e hb, hb⟩
  · rintro ⟨hl, hj, hh, hs⟩
    refine ⟨⟨hl, hs, fun before s after e => (hh before s after e).2⟩, fun s hmem => ?_⟩
    cases s with
    | jump j => simpa [Statement.goesNowhere] using hj j hmem
    | _ => simp [Statement.goesNowhere]

/-! ## Press lines -/

def Chord.tones (c : Chord) : List Int :=
  match c.notes with
  | .ok notes => notes
  | .error _ => []

namespace Link

theorem addNew_append (seen new more : List Int) :
    addNew seen (new ++ more) = addNew (addNew seen new) more := by
  induction new generalizing seen with
  | nil => rfl
  | cons n rest ih =>
    simp only [List.cons_append, addNew]
    split <;> exact ih _

theorem pitches_eq_ok {seen notes : List Int} {chords : List Chord} :
    pitches seen chords = .ok notes ↔
      (∀ c ∈ chords, ∃ notes, c.notes = .ok notes) ∧
        notes = addNew seen (chords.flatMap Chord.tones) := by
  induction chords generalizing seen with
  | nil => simp [pitches, addNew, eq_comm]
  | cons c rest ih =>
    cases hc : c.notes with
    | error e => simp [pitches, hc]
    | ok new =>
      have htones : c.tones = new := by rw [Chord.tones, hc]
      simp [pitches, hc, htones, ih, addNew_append]

theorem press_ok {d : Defaults} (hd : d.InRange) {p : Play} (hp : p.InRange) :
    ∃ code, press d p = .ok code := by
  obtain ⟨w, hw, -⟩ := pressWait?_inRange hd hp
  have hpitches : pitches [] p.chords = .ok (addNew [] (p.chords.flatMap Chord.tones)) :=
    pitches_eq_ok.mpr ⟨fun c hc => (hp.chords c hc).2, rfl⟩
  exact ⟨_, press_eq_ok.mpr ⟨_, w, hpitches, hw, rfl⟩⟩

/-! ## The walk -/

/-- The state after the statements `before`: it has their names, and the header lasts as long as
they are header statements. -/
structure Reflects (st : State) (before : List Statement) : Prop where
  declared : st.declared.map (·.name) = labelNames before
  settings : st.settings.map (·.name) = settingNames before
  inHeader : st.inHeader = before.all Statement.isHeader
  defaults : st.defaults.InRange

/-- How a walk over the statements `l` ends: at their end, or at their first offender. -/
def Outcome (before l : List Statement) : Except Failure State → Prop
  | .ok st => offender? before l = none ∧ Reflects st (before ++ l)
  | .error e => ∃ s, offender? before l = some s ∧ e.2 = s.pos

section
variable {before l l' : List Statement} {s : Statement} {st : State}

theorem Outcome.stop {e : Failure} (hs : s.Offends before) (he : e.2 = s.pos) :
    Outcome before (s :: l) (.error e) :=
  ⟨s, by simp [offender?, hs], he⟩

theorem Outcome.go (hs : ¬ s.Offends before) (hst : Reflects st (before ++ [s])) :
    Outcome before [s] (.ok st) :=
  ⟨by simp [offender?, hs], hst⟩

theorem Outcome.bind {r : Except Failure State} {f : State → Except Failure State}
    (h : Outcome before l r)
    (hf : ∀ st, Reflects st (before ++ l) → Outcome (before ++ l) l' (f st)) :
    Outcome before (l ++ l') (r.bind f) := by
  cases r with
  | error e =>
    obtain ⟨s, hs, he⟩ := h
    exact ⟨s, by simp [offender?_append, hs], he⟩
  | ok st =>
    obtain ⟨hnone, hst⟩ := h
    have hrest := hf st hst
    show Outcome before (l ++ l') (f st)
    cases hr : f st with
    | error e =>
      rw [hr] at hrest
      obtain ⟨s, hs, he⟩ := hrest
      exact ⟨s, by simp [offender?_append, hnone, hs], he⟩
    | ok st' =>
      rw [hr] at hrest
      obtain ⟨hnone', hst'⟩ := hrest
      exact ⟨by simp [offender?_append, hnone, hnone'], by simpa using hst'⟩

theorem Outcome.map {r : Except Failure State} {f : State → State} (h : Outcome before l r)
    (hf : ∀ st, Reflects st (before ++ l) → Reflects (f st) (before ++ l)) :
    Outcome before l (r.map f) := by
  cases r with
  | error e => exact h
  | ok st => exact ⟨h.1, hf st h.2⟩

theorem emitAll_cons (scope : List String) (rest : List Statement) :
    emitAll scope st (s :: rest) = (emit scope st s).bind (emitAll scope · rest) := by
  rw [emitAll]
  cases emit scope st s <;> rfl

theorem emit_label {scope : List String} {name : String} {body : List Statement} {pos : Pos}
    (h : st.declared.find? (·.name == name) = none) :
    emit scope st (.label name body pos) =
      (emitAll (scope ++ [name]) (st.declare name pos) body).map
        (·.closeLabel name st.code.size scope pos) := by
  simp only [emit, h, State.declare]
  cases emitAll (scope ++ [name]) _ body <;> rfl

theorem emit_loop {scope : List String} {count : Option Int} {body : List Statement} {pos : Pos} :
    emit scope st (.loop count body pos) =
      (emitAll scope st.leaveHeader body).map (·.closeLoop count st.code.size pos) := by
  simp only [emit, State.leaveHeader]
  cases emitAll scope _ body <;> rfl

theorem emit_plain {scope : List String} (hs : isPlainCode s = true) :
    emit scope st s = .ok (st.leaveHeader.push s) := by
  cases s <;> simp_all [isPlainCode, emit, State.leaveHeader, State.push]

/-- A name that was not given before is not in the table, and one that was is. -/
theorem Reflects.find?_declared (h : Reflects st before) (name : String) :
    st.declared.find? (·.name == name) = none ↔ name ∉ labelNames before := by
  rw [← h.declared]
  simp only [List.find?_eq_none, beq_iff_eq, List.mem_map, not_exists, not_and]

theorem Reflects.find?_settings (h : Reflects st before) (name : String) :
    st.settings.find? (·.name == name) = none ↔ name ∉ settingNames before := by
  rw [← h.settings]
  simp only [List.find?_eq_none, beq_iff_eq, List.mem_map, not_exists, not_and]

theorem Reflects.leave (h : Reflects st before) (hs : s.isHeader = false)
    (hl : s.labelName? = none) : Reflects st.leaveHeader (before ++ [s]) := by
  have hset : s.settingName? = none := by
    cases s <;> simp_all [Statement.isHeader, Statement.settingName?]
  exact ⟨by simpa [hl, State.leaveHeader] using h.declared,
    by simpa [hset, State.leaveHeader] using h.settings, by simp [hs, State.leaveHeader],
    h.defaults⟩

theorem Reflects.declare (h : Reflects st before) (name : String) (body : List Statement)
    (pos : Pos) : Reflects (st.declare name pos) (before ++ [.label name body pos]) := by
  refine ⟨?_, ?_, ?_, h.defaults⟩
  · simp [State.declare, h.declared, Statement.labelName?]
  · simpa [State.declare, Statement.settingName?] using h.settings
  · simp [State.declare, Statement.isHeader]

theorem Reflects.emitted (h : Reflects st before) (code : Array Statement) (spans : List Span) :
    Reflects { st with code := code, spans := spans } before :=
  ⟨h.declared, h.settings, h.inHeader, h.defaults⟩

theorem Reflects.closeLoop (h : Reflects st before) (count : Option Int) (start : Nat) (pos : Pos) :
    Reflects (st.closeLoop count start pos) before := by
  unfold State.closeLoop
  split
  · exact h
  · exact h.emitted _ _

theorem Reflects.set {st' : State} (h : Reflects st before) {s : Setting} (hs : s.InRange)
    (hset : st.set s = .ok st') : Reflects st' (before ++ [.setting s]) := by
  obtain ⟨-, hd, hf, -, hn, hh⟩ := State.set_ok hset
  refine ⟨?_, ?_, ?_, hf ▸ h.defaults.set hs⟩
  · simp [hd, h.declared, Statement.labelName?]
  · simp [hn, h.settings, Statement.settingName?]
  · simp [hh, h.inHeader, Statement.isHeader]

theorem setting_outcome (h : Reflects st before) {s : Setting} (hs : s.InRange) :
    Outcome before [.setting s] (st.set s) := by
  cases hset : st.set s with
  | ok st' =>
    obtain ⟨hnew, hin, -⟩ := State.set_eq_ok.mp hset
    refine .go (fun hbad => ?_) (h.set hs hset)
    rcases hbad with hold | ⟨t, ht, hlate⟩
    · exact (h.find?_settings s.name).mp hnew hold
    · rw [h.inHeader, List.all_eq_true] at hin
      simp [hin t ht] at hlate
  | error e =>
    unfold State.set at hset
    split at hset
    · rename_i first hfirst
      cases hset
      refine .stop (.inl ?_) rfl
      by_contra hnew
      rw [(h.find?_settings s.name).mpr hnew] at hfirst
      cases hfirst
    · split at hset
      · rename_i hout
        cases hset
        exact .stop (.inr (by simpa [h.inHeader] using hout)) rfl
      · -- Every setting in range is one that exists.
        have hknown : ∃ st', st.store? s = some st' := by cases hs <;> exact ⟨_, rfl⟩
        obtain ⟨st', hst'⟩ := hknown
        simp [hst'] at hset

/-- The walk ends at the first offender, and without one it comes to the end. -/
theorem emitAll_outcome {tree : List Statement} {scope : List String} (h : Reflects st before)
    (htree : Forest.Each Statement.InRange tree) :
    Outcome before (nodes tree) (emitAll scope st tree) := by
  induction tree using Forest.induct generalizing scope st before with
  | nil => exact ⟨by simp [offender?], by simpa using h⟩
  | label name body pos rest ihBody ihRest =>
    obtain ⟨-, hbody, hrest⟩ := htree.label
    have hblock : Outcome before ([.label name body pos] ++ nodes body)
        (emit scope st (.label name body pos)) := by
      by_cases hold : name ∈ labelNames before
      · cases hfind : st.declared.find? (·.name == name) with
        | none => exact absurd hold ((h.find?_declared name).mp hfind)
        | some first =>
          simp only [emit, hfind]
          exact .stop hold rfl
      · rw [emit_label ((h.find?_declared name).mpr hold)]
        have hin : Outcome before ([.label name body pos] ++ nodes body)
            ((Except.ok (st.declare name pos)).bind (emitAll (scope ++ [name]) · body)) :=
          .bind (.go hold (h.declare name body pos)) fun _ h₁ => ihBody h₁ hbody
        exact hin.map fun _ h₁ => h₁.emitted _ _
    rw [Forest.nodes_label, emitAll_cons]
    exact hblock.bind fun _ h₁ => ihRest h₁ hrest
  | loop count body pos rest ihBody ihRest =>
    obtain ⟨-, hbody, hrest⟩ := htree.loop
    have hin : Outcome before ([.loop count body pos] ++ nodes body)
        ((Except.ok st.leaveHeader).bind (emitAll scope · body)) :=
      .bind (.go id (h.leave rfl rfl)) fun _ h₁ => ihBody h₁ hbody
    have hblock := hin.map fun _ h₁ => h₁.closeLoop count st.code.size pos
    rw [Forest.nodes_loop, emitAll_cons, emit_loop]
    exact hblock.bind fun _ h₁ => ihRest h₁ hrest
  | leaf s rest hleaf ih =>
    obtain ⟨hs, hrest⟩ := htree.leaf hleaf
    have hone : Outcome before [s] (emit scope st s) := by
      cases s with
      | label | loop => simp [Statement.isBlock] at hleaf
      | setting s =>
        simp only [emit]
        exact setting_outcome h hs
      | tempo t =>
        have hstay : Reflects st (before ++ [.tempo t]) :=
          ⟨by simpa [Statement.labelName?] using h.declared,
            by simpa [Statement.settingName?] using h.settings,
            by simpa [Statement.isHeader] using h.inHeader, h.defaults⟩
        simp only [emit]
        exact .go id (hstay.emitted _ _)
      | play p =>
        obtain ⟨code, hcode⟩ := press_ok h.defaults hs
        simp only [emit, hcode]
        exact .go id ((h.leave rfl rfl).emitted _ _)
      | send | looseSend | wait | jump =>
        rw [emit_plain rfl]
        exact .go id ((h.leave rfl rfl).emitted _ _)
    rw [Forest.nodes_leaf hleaf, emitAll_cons]
    exact hone.bind fun _ h₁ => ih h₁ hrest

end

/-! ## Jumps -/

/-- Whether an instruction is a jump that cannot be resolved. -/
def dangles (declared : List Declaration) : Statement → Bool
  | .jump j => (j.target.or (start? declared j.label)).isNone
  | _ => false

theorem resolve_outcome (declared : List Declaration) (i : Nat) (code : List Statement) :
    match resolve declared i code with
    | .ok _ => code.find? (dangles declared) = none
    | .error e => ∃ s, code.find? (dangles declared) = some s ∧ e.2 = s.pos := by
  induction code generalizing i with
  | nil => simp [resolve]
  | cons s rest ih =>
    have hrest := ih (i + 1)
    cases s with
    | jump j =>
      cases htarget : j.target.or (start? declared j.label) with
      | none =>
        simp only [resolve, htarget]
        exact ⟨.jump j, by simp [dangles, htarget], rfl⟩
      | some t =>
        have hskip : dangles declared (.jump j) = false := by simp [dangles, htarget]
        simp only [resolve, htarget, List.find?_cons, hskip]
        cases hr : resolve declared (i + 1) rest <;> rw [hr] at hrest <;> exact hrest
    | _ =>
      simp only [resolve, List.find?_cons, dangles]
      cases hr : resolve declared (i + 1) rest <;> rw [hr] at hrest <;> exact hrest

theorem start?_isNone {declared : List Declaration} {name : String} :
    (start? declared name).isNone = !(declared.map (·.name)).contains name := by
  rw [Bool.eq_iff_iff]
  simp only [start?, Option.isNone_iff_eq_none, Option.map_eq_none_iff, List.find?_eq_none,
    beq_iff_eq, Bool.not_eq_true', List.contains_eq_mem, decide_eq_false_iff_not, List.mem_map,
    not_exists, not_and]

/-- The jumps that cannot be resolved are those of the tree that go nowhere: press lines have no
jumps, and those of loops know their target. -/
theorem find?_lower {tree : List Statement} {d : Defaults} {base : Nat}
    {declared : List Declaration} (htree : Forest.Each Statement.InRange tree) :
    (lower d base tree).find? (dangles declared) =
      (nodes tree).find? (·.goesNowhere (declared.map (·.name))) := by
  induction tree using Forest.induct generalizing d base with
  | nil => simp [lower]
  | label name body pos rest ihBody ihRest =>
    obtain ⟨-, hbody, hrest⟩ := htree.label
    simp only [lower, Forest.nodes_label, List.find?_append, List.find?_cons,
      Statement.goesNowhere, ihBody hbody, ihRest hrest]
  | loop count body pos rest ihBody ihRest =>
    obtain ⟨-, hbody, hrest⟩ := htree.loop
    have hback : (jumpBack count base pos).find? (dangles declared) = none := by
      rw [List.find?_eq_none]
      intro t ht
      obtain ⟨-, rfl⟩ := mem_jumpBack.mp ht
      simp [dangles]
    simp only [lower, Forest.nodes_loop, List.find?_append, List.find?_cons,
      Statement.goesNowhere, ihBody hbody, ihRest hrest, hback, Option.none_or]
  | leaf s rest hleaf ih =>
    obtain ⟨hs, hrest⟩ := htree.leaf hleaf
    rw [Forest.nodes_leaf hleaf, List.find?_cons]
    cases s with
    | label | loop => simp [Statement.isBlock] at hleaf
    | setting s => simpa only [lower, Statement.goesNowhere] using ih hrest
    | play p =>
      have hpress : (pressed d p).find? (dangles declared) = none := by
        rw [List.find?_eq_none]
        intro t ht
        have hj := isJump_pressed t ht
        cases t <;> simp_all [Statement.isJump, dangles]
      simpa only [lower, Statement.goesNowhere, List.find?_append, hpress, Option.none_or]
        using ih hrest
    | jump j =>
      have hsame : dangles declared (.jump j) =
          (Statement.jump j).goesNowhere (declared.map (·.name)) := by
        rw [dangles, hs.1, Option.none_or, start?_isNone, Statement.goesNowhere]
      simp only [lower, List.find?_cons, hsame, ih hrest]
    | _ => simpa only [lower, Statement.goesNowhere, List.find?_cons, dangles] using ih hrest

/-- Linking a tree in range fails exactly when some statement is to blame, and there. -/
theorem link_outcome {tree : List Statement} (htree : Forest.Each Statement.InRange tree)
    (source : Option String) :
    match link tree source with
    | .ok _ => problem? tree = none
    | .error e => ∃ s, problem? tree = some s ∧ e.pos = s.pos := by
  have hstart : Reflects {} [] := ⟨rfl, rfl, rfl, Defaults.inRange_initial⟩
  have hwalk : Outcome [] (nodes tree) (emitAll [] {} tree) := emitAll_outcome hstart htree
  unfold link program problem?
  cases he : emitAll [] {} tree with
  | error e =>
    rw [he] at hwalk
    obtain ⟨s, hs, hpos⟩ := hwalk
    exact ⟨s, by simp [hs], hpos⟩
  | ok st =>
    rw [he] at hwalk
    obtain ⟨hnone, hst⟩ := hwalk
    have hcode : st.code.toList = lower {} 0 tree := by
      simpa using (walk_of_emitAll he).code.1
    have hjumps := resolve_outcome st.declared 0 st.code.toList
    rw [hcode, find?_lower htree, hst.declared, List.nil_append] at hjumps
    rw [hnone, Option.none_or]
    dsimp only
    rw [hcode]
    cases hr : resolve st.declared 0 (lower {} 0 tree) <;> rw [hr] at hjumps <;> exact hjumps

end Link

/-- **Linking accepts exactly the linkable trees.** A tree that was read links if and only if its
labels and settings have names of their own, its jumps name its labels and its settings stand in
the header. Otherwise the failure is at the statement to blame. -/
theorem link_iff_linkable {text : String} {name : Option String} {tree : List Statement}
    (h : Source.parse text name = .ok tree) (source : Option String) :
    ((∃ p, link tree source = .ok p) ↔ Linkable tree) ∧
      ∀ e, link tree source = .error e → ∃ s, problem? tree = some s ∧ e.pos = s.pos := by
  have houtcome := Link.link_outcome (Source.parse_inRange h) source
  rw [← problem?_eq_none_iff]
  cases hl : link tree source with
  | ok p =>
    rw [hl] at houtcome
    exact ⟨⟨fun _ => houtcome, fun _ => ⟨p, rfl⟩⟩, fun e he => by cases he⟩
  | error e =>
    rw [hl] at houtcome
    obtain ⟨s, hs, hpos⟩ := houtcome
    refine ⟨⟨?_, fun hnone => ?_⟩, fun e' he => ?_⟩
    · rintro ⟨p, hp⟩
      cases hp
    · rw [hs] at hnone
      cases hnone
    · cases he
      exact ⟨s, hs, hpos⟩

/-- A jump that goes nowhere comes first, and a label inside another of the same name is to
blame. -/
def clashText : String := "JUMP b\nLABEL a:\n LOOP:\n  LABEL a:"

def clashTree : List Statement :=
  [.jump { label := "b", pos := ⟨1, 1⟩ },
    .label "a" [.loop none [.label "a" [] ⟨4, 9⟩] ⟨3, 2⟩] ⟨2, 7⟩]

set_option maxRecDepth 4000 in
theorem parse_clash : Source.parse clashText none = .ok clashTree := by
  cbv

theorem link_iff_linkable_clash : Source.parse clashText none = .ok clashTree ∧
    ((∃ p, link clashTree none = .ok p) ↔ Linkable clashTree) ∧
      ∀ e, link clashTree none = .error e → ∃ s, problem? clashTree = some s ∧ e.pos = s.pos :=
  ⟨parse_clash, link_iff_linkable parse_clash none⟩

example : (problem? clashTree).map Statement.pos = some ⟨4, 9⟩ := by
  cbv

end Ostinato
