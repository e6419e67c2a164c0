import Ostinato.Proofs.Linkable

/-!
# Where the statements of a tree stand

A `Place` is a statement with what comes before it: the statements that are complete when the walk
reaches it, and the names of the labels around it. `places` lists the places of a tree in program
order. The code of what comes before says at which index the statement's own code starts, so the
symbol table (`declarations_eq`), the spans (`Walk.spans`) and the jumps (`exists_leaves`) of the
flat program are all read off the places.
-/

namespace Ostinato.Link

open Forest (nodes)

/-! ## Code before a point -/

/-- The defaults after some statements. -/
def Defaults.after (d : Defaults) : List Statement → Defaults
  | [] => d
  | .setting s :: rest => (d.set s).after rest
  | _ :: rest => d.after rest

/-- The code of the statements that come before some point of a program. -/
def codeOf (before : List Statement) : List Statement := lower {} 0 before

/-- The code of statements that come after `before`. -/
def codeAfter (before tree : List Statement) : List Statement :=
  lower (Defaults.after {} before) (codeOf before).length tree

theorem lower_append (d : Defaults) (base : Nat) (a b : List Statement) :
    lower d base (a ++ b) =
      lower d base a ++ lower (d.after a) (base + (lower d base a).length) b := by
  induction a generalizing d base with
  | nil => simp [lower, Defaults.after]
  | cons s rest ih =>
    cases s <;> simp [lower, Defaults.after, ih, Nat.add_assoc, Nat.add_comm 1]

theorem Defaults.after_append (d : Defaults) (a b : List Statement) :
    d.after (a ++ b) = (d.after a).after b := by
  induction a generalizing d with
  | nil => rfl
  | cons s rest ih => cases s <;> simp [Defaults.after, ih]

section
variable (before : List Statement)

theorem codeOf_append (tree : List Statement) :
    codeOf (before ++ tree) = codeOf before ++ codeAfter before tree := by
  simp [codeOf, codeAfter, lower_append]

theorem codeOf_prefix_cons (s : Statement) (rest : List Statement) :
    codeOf (before ++ [s]) <+: codeOf (before ++ s :: rest) := by
  rw [List.append_cons before s rest, codeOf_append (before ++ [s]) rest]
  exact List.prefix_append _ _

theorem codeOf_getElem?_head {before : List Statement} {s : Statement} {rest : List Statement}
    {k : Nat} (h : k < (codeOf (before ++ [s])).length) :
    (codeOf (before ++ s :: rest))[k]? = (codeOf (before ++ [s]))[k]? := by
  rw [List.append_cons before s rest, codeOf_append (before ++ [s]), List.getElem?_append_left h]

@[simp] theorem codeAfter_label (name : String) (body : List Statement) (pos : Pos) :
    codeAfter before [.label name body pos] = codeAfter before body := by
  simp [codeAfter, lower]

@[simp] theorem codeAfter_loop (count : Option Int) (body : List Statement) (pos : Pos) :
    codeAfter before [.loop count body pos] =
      codeAfter before body ++ jumpBack count (codeOf before).length pos := by
  simp [codeAfter, lower]

@[simp] theorem codeAfter_jump (j : Jump) : codeAfter before [.jump j] = [.jump j] := by
  simp [codeAfter, lower]

theorem codeOf_label (name : String) (body : List Statement) (pos : Pos) :
    codeOf (before ++ [.label name body pos]) = codeOf (before ++ body) := by
  simp [codeOf_append]

theorem codeOf_loop (count : Option Int) (body : List Statement) (pos : Pos) :
    codeOf (before ++ [.loop count body pos]) =
      codeOf (before ++ body) ++ jumpBack count (codeOf before).length pos := by
  simp [codeOf_append]

end

/-! ## Places -/

/-- A statement with the statements that are complete before it and the labels around it, outermost
first. -/
structure Place where
  before : List Statement
  scope : List String
  statement : Statement

/-- The places of statements that come after `before` and stand in the labels of `scope`, in
program order. -/
def places (before : List Statement) (scope : List String) : List Statement → List Place
  | [] => []
  | .label name body pos :: rest =>
    ⟨before, scope, .label name body pos⟩ :: (places before (scope ++ [name]) body ++
      places (before ++ [.label name body pos]) scope rest)
  | .loop count body pos :: rest =>
    ⟨before, scope, .loop count body pos⟩ :: (places before scope body ++
      places (before ++ [.loop count body pos]) scope rest)
  | s :: rest => ⟨before, scope, s⟩ :: places (before ++ [s]) scope rest

namespace Place

def start (x : Place) : Nat := (codeOf x.before).length

def code (x : Place) (body : List Statement) : List Statement := codeAfter x.before body

def declaration? (x : Place) : Option Declaration :=
  match x.statement with
  | .label name _ pos => some ⟨name, pos, x.start⟩
  | _ => none

def span? (x : Place) : Option Span :=
  match x.statement with
  | .label name body pos => some ⟨name, x.start, x.start + (x.code body).length, x.scope, pos⟩
  | _ => none

end Place

section
variable {before rest : List Statement} {scope : List String}

@[simp] theorem places_nil : places before scope [] = [] := by simp [places]

theorem places_label {name : String} {body : List Statement} {pos : Pos} :
    places before scope (.label name body pos :: rest) =
      ⟨before, scope, .label name body pos⟩ :: (places before (scope ++ [name]) body ++
        places (before ++ [.label name body pos]) scope rest) := by
  simp [places]

theorem places_loop {count : Option Int} {body : List Statement} {pos : Pos} :
    places before scope (.loop count body pos :: rest) =
      ⟨before, scope, .loop count body pos⟩ :: (places before scope body ++
        places (before ++ [.loop count body pos]) scope rest) := by
  simp [places]

theorem places_leaf {s : Statement} (hs : s.isBlock = false) :
    places before scope (s :: rest) =
      ⟨before, scope, s⟩ :: places (before ++ [s]) scope rest := by
  cases s with
  | label | loop => simp [Statement.isBlock] at hs
  | _ => simp [places]

end

theorem statements_places (before : List Statement) (scope : List String)
    (tree : List Statement) : (places before scope tree).map (·.statement) = nodes tree := by
  induction tree using Forest.induct generalizing before scope with
  | nil => simp
  | label name body pos rest ihBody ihRest =>
    simp [places_label, Forest.nodes_label, ihBody, ihRest]
  | loop count body pos rest ihBody ihRest =>
    simp [places_loop, Forest.nodes_loop, ihBody, ihRest]
  | leaf s rest hleaf ih => simp [places_leaf hleaf, Forest.nodes_leaf hleaf, ih]

theorem codeOf_prefix_place {before tree : List Statement} {scope : List String} {x : Place}
    (hx : x ∈ places before scope tree) :
    codeOf (x.before ++ [x.statement]) <+: codeOf (before ++ tree) := by
  induction tree using Forest.induct generalizing before scope with
  | nil => simp at hx
  | label name body pos rest ihBody ihRest =>
    have hstep := codeOf_prefix_cons before (.label name body pos) rest
    have hbody : codeOf (before ++ body) = codeOf (before ++ [.label name body pos]) := by
      simp [codeOf_append]
    rw [places_label, List.mem_cons, List.mem_append] at hx
    rcases hx with rfl | hx | hx
    · exact hstep
    · exact (hbody ▸ ihBody hx).trans hstep
    · simpa using ihRest hx
  | loop count body pos rest ihBody ihRest =>
    have hstep := codeOf_prefix_cons before (.loop count body pos) rest
    have hbody : codeOf (before ++ body) <+: codeOf (before ++ [.loop count body pos]) := by
      simp [codeOf_append]
    rw [places_loop, List.mem_cons, List.mem_append] at hx
    rcases hx with rfl | hx | hx
    · exact hstep
    · exact ((ihBody hx).trans hbody).trans hstep
    · simpa using ihRest hx
  | leaf s rest hleaf ih =>
    rw [places_leaf hleaf, List.mem_cons] at hx
    rcases hx with rfl | hx
    · exact codeOf_prefix_cons before s rest
    · simpa using ih hx

/-! ## The symbol table -/

theorem declarations_eq (before : List Statement) (scope : List String) (tree : List Statement) :
    declarations (Defaults.after {} before) (codeOf before).length tree =
      (places before scope tree).filterMap Place.declaration? := by
  induction tree using Forest.induct generalizing before scope with
  | nil => simp [declarations]
  | label name body pos rest ihBody ihRest =>
    have hrest := ihRest (before ++ [.label name body pos]) scope
    simp only [codeOf_append, codeAfter_label, List.length_append, Defaults.after_append,
      Defaults.after] at hrest
    rw [declarations, places_label, List.filterMap_cons, List.filterMap_append,
      ← ihBody before (scope ++ [name]), ← hrest]
    rfl
  | loop count body pos rest ihBody ihRest =>
    have hrest := ihRest (before ++ [.loop count body pos]) scope
    simp only [codeOf_append, codeAfter_loop, List.length_append, Defaults.after_append,
      Defaults.after, ← Nat.add_assoc] at hrest
    rw [declarations, places_loop, List.filterMap_cons, List.filterMap_append,
      ← ihBody before scope, ← hrest]
    rfl
  | leaf s rest hleaf ih =>
    have hrest := ih (before ++ [s]) scope
    rw [places_leaf hleaf, List.filterMap_cons, ← hrest]
    cases s with
    | label | loop => simp [Statement.isBlock] at hleaf
    | _ => simp [declarations, Place.declaration?, codeOf_append, codeAfter, lower, Defaults.after,
        Defaults.after_append]

/-! ## Spans -/

/-- The spans of the labels of a tree in the order in which they close. -/
def closed (before : List Statement) (scope : List String) : List Statement → List Span
  | [] => []
  | .label name body pos :: rest =>
    closed before (scope ++ [name]) body ++
      ⟨name, (codeOf before).length, (codeOf before).length + (codeAfter before body).length, scope,
        pos⟩ :: closed (before ++ [.label name body pos]) scope rest
  | .loop count body pos :: rest =>
    closed before scope body ++ closed (before ++ [.loop count body pos]) scope rest
  | s :: rest => closed (before ++ [s]) scope rest

section
variable {before rest : List Statement} {scope : List String}

@[simp] theorem closed_nil : closed before scope [] = [] := by simp [closed]

theorem closed_leaf {s : Statement} (hs : s.isBlock = false) :
    closed before scope (s :: rest) = closed (before ++ [s]) scope rest := by
  cases s with
  | label | loop => simp [Statement.isBlock] at hs
  | _ => simp [closed]

end

theorem closed_cons (before : List Statement) (scope : List String) (s : Statement)
    (rest : List Statement) :
    closed before scope (s :: rest) = closed before scope [s] ++ closed (before ++ [s]) scope rest := by
  cases s <;> simp [closed]

theorem closed_perm (before : List Statement) (scope : List String) (tree : List Statement) :
    (closed before scope tree).Perm ((places before scope tree).filterMap Place.span?) := by
  induction tree using Forest.induct generalizing before scope with
  | nil => simp
  | label name body pos rest ihBody ihRest =>
    rw [closed, places_label, List.filterMap_cons, List.filterMap_append]
    exact List.perm_middle.trans
      (((ihBody before (scope ++ [name])).append (ihRest _ scope)).cons _)
  | loop count body pos rest ihBody ihRest =>
    rw [closed, places_loop, List.filterMap_cons, List.filterMap_append]
    exact (ihBody before scope).append (ihRest _ scope)
  | leaf s rest hleaf ih =>
    rw [closed_leaf hleaf, places_leaf hleaf, List.filterMap_cons]
    cases s with
    | label | loop => simp [Statement.isBlock] at hleaf
    | _ => exact ih _ scope

/-- The walk has come past the statements `before`. -/
structure Past (st : State) (before : List Statement) : Prop where
  code : st.code.toList = codeOf before
  defaults : st.defaults = Defaults.after {} before

theorem Past.size {st : State} {before : List Statement} (h : Past st before) :
    st.code.size = (codeOf before).length := by
  rw [← h.code, Array.length_toList]

theorem Past.next {st st' : State} {before : List Statement} {s : Statement} (h : Past st before)
    (hc : st'.code.toList = st.code.toList ++ codeAfter before [s])
    (hd : st'.defaults = st.defaults.after [s]) : Past st' (before ++ [s]) :=
  ⟨by rw [hc, h.code, codeOf_append], by rw [hd, h.defaults, Defaults.after_append]⟩

/-- The walk appends the spans of the tree as they close. -/
theorem Walk.spans {scope : List String} {st st' : State} {tree : List Statement}
    (h : Walk scope st tree st') {before : List Statement} (hst : Past st before) :
    st'.spans = st.spans ++ closed before scope tree := by
  induction h generalizing before with
  | nil => simp
  | @setting _ _ st₁ _ s _ hset _ ih =>
    obtain ⟨hc, -, hd, hsp, -⟩ := State.set_ok hset
    have hnext : Past st₁ (before ++ [.setting s]) := hst.next (by simp [hc, codeAfter, lower]) hd
    rw [ih hnext, hsp, closed_leaf rfl]
  | @label scope st st₁ _ name body rest pos _ hbody _ ihBody ihRest =>
    have hin : Past (st.declare name pos) before := ⟨hst.code, hst.defaults⟩
    have hcode : st₁.code.toList = st.code.toList ++ codeAfter before body := by
      rw [hbody.code.1, hin.size, hin.defaults]
      rfl
    have hnext : Past (st₁.closeLabel name st.code.size scope pos)
        (before ++ [.label name body pos]) :=
      hst.next (by rw [codeAfter_label]; exact hcode) (hbody.defaults rfl).1
    have hsize : st₁.code.size = (codeOf before).length + (codeAfter before body).length := by
      rw [← Array.length_toList, hcode, hst.code, List.length_append]
    rw [ihRest hnext, closed]
    simp only [State.closeLabel, ihBody hin, hsize, hst.size]
    simp [State.declare]
  | @loop scope st st₁ _ count body rest pos hbody _ ihBody ihRest =>
    have hin : Past st.leaveHeader before := ⟨hst.code, hst.defaults⟩
    have hl := st₁.closeLoop_code count st.code.size pos
    obtain ⟨hlf, -, -, hspans, -⟩ := st₁.closeLoop_frame count st.code.size pos
    have hnext : Past (st₁.closeLoop count st.code.size pos)
        (before ++ [.loop count body pos]) := by
      refine hst.next ?_ (hlf.trans (hbody.defaults rfl).1)
      rw [hl, hbody.code.1, hin.size, hin.defaults, hst.size, codeAfter_loop, List.append_assoc]
      rfl
    rw [ihRest hnext, hspans, ihBody hin, closed]
    simp [State.leaveHeader]
  | @play _ st _ p code rest hp _ ih =>
    have hcode : pressed st.defaults p = code := by rw [pressed, hp]
    have hnext : Past (st.append code) (before ++ [.play p]) :=
      hst.next (by simp [State.append, codeAfter, lower, ← hst.defaults, hcode]) rfl
    rw [ih hnext, closed_leaf rfl]
    rfl
  | @tempo _ st _ t rest _ ih =>
    have hnext : Past (st.push (.tempo t)) (before ++ [.tempo t]) :=
      hst.next (by simp [State.push, codeAfter, lower]) rfl
    rw [ih hnext, closed_leaf rfl]
    rfl
  | @plain _ st _ s rest hs _ ih =>
    have hleaf : s.isBlock = false ∧ st.defaults.after [s] = st.defaults := by
      cases s <;> simp_all [isPlainCode, Statement.isBlock, Defaults.after]
    have hnext : Past (st.leaveHeader.push s) (before ++ [s]) :=
      hst.next (by simp [State.push, State.leaveHeader, codeAfter, lower_plain hs, lower])
        hleaf.2.symm
    rw [ih hnext, closed_leaf hleaf.1]
    rfl

theorem Walk.nodup {scope : List String} {st st' : State} {tree : List Statement}
    (h : Walk scope st tree st') (hst : (st.declared.map (·.name)).Nodup) :
    (st'.declared.map (·.name)).Nodup := by
  induction h with
  | nil => exact hst
  | setting hset _ ih =>
    apply ih
    rwa [(State.set_ok hset).2.1]
  | @label _ st st₁ _ name _ _ pos hnew _ _ ihBody ihRest =>
    have hfresh : name ∉ st.declared.map (·.name) := by
      simpa using hnew
    refine ihRest (ihBody ?_)
    simpa [State.declare, List.nodup_append, hst] using hfresh
  | @loop _ st st₁ _ count _ _ pos _ _ ihBody ihRest =>
    apply ihRest
    rw [(st₁.closeLoop_frame count st.code.size pos).2.2.1]
    exact ihBody hst
  | play _ _ ih | tempo _ ih | plain _ _ ih => exact ih hst

/-! ## Jumps -/

/-- The jump that a statement leaves in the code, with its index. A loop that runs once leaves
none. -/
inductive Place.Leaves (x : Place) : Nat → Jump → Prop where
  | jump {j : Jump} : x.statement = .jump j → Leaves x x.start j
  | loop {count : Option Int} {body : List Statement} {pos : Pos} :
      x.statement = .loop count body pos → count ≠ some 1 →
      Leaves x (x.start + (x.code body).length)
        ⟨loopName pos, count.map (· - 1), some (x.start : Int), pos⟩

theorem leaves_of_jumpBack {x : Place} {count : Option Int} {body : List Statement} {pos : Pos}
    (hx : x.statement = .loop count body pos) {k : Nat} {j : Jump}
    (h : (jumpBack count x.start pos)[k]? = some (.jump j)) :
    x.Leaves (x.start + (x.code body).length + k) j := by
  have hk : k < 1 :=
    (List.getElem?_eq_some_iff.mp h).1.trans_le (length_jumpBack_le count x.start pos)
  obtain rfl : k = 0 := by omega
  obtain ⟨hcount, hj⟩ := mem_jumpBack.mp (List.mem_of_getElem? h)
  cases hj
  exact .loop hx hcount

/-- Of the statements without a body only a jump leaves a jump, and it leaves nothing else. -/
theorem leaves_of_leaf {x : Place} (hleaf : x.statement.isBlock = false) {k : Nat} {j : Jump}
    (h : (x.code [x.statement])[k]? = some (.jump j)) : x.Leaves (x.start + k) j := by
  obtain ⟨before, scope, s⟩ := x
  have hmem := List.mem_of_getElem? h
  cases s with
  | label | loop => simp [Statement.isBlock] at hleaf
  | jump j' =>
    simp only [Place.code, codeAfter_jump, List.getElem?_singleton] at h
    split at h
    · rename_i hk
      cases h
      exact hk ▸ .jump rfl
    · cases h
  | play p =>
    have hj := isJump_pressed (.jump j) (by simpa [Place.code, codeAfter, lower] using hmem)
    cases hj
  | _ => simp [Place.code, codeAfter, lower] at hmem

theorem exists_leaves {before tree : List Statement} (scope : List String) {k : Nat} {j : Jump}
    (hk : (codeOf before).length ≤ k) (h : (codeOf (before ++ tree))[k]? = some (.jump j)) :
    ∃ x ∈ places before scope tree, x.Leaves k j := by
  induction tree using Forest.induct generalizing before scope k with
  | nil =>
    rw [List.append_nil, List.getElem?_eq_none hk] at h
    cases h
  | label name body pos rest ihBody ihRest =>
    rw [places_label]
    rcases Nat.lt_or_ge k (codeOf (before ++ [.label name body pos])).length with hlt | hge
    · rw [codeOf_getElem?_head hlt, codeOf_label] at h
      obtain ⟨x, hx, hl⟩ := ihBody (scope ++ [name]) hk h
      exact ⟨x, by simp [hx], hl⟩
    · rw [List.append_cons] at h
      obtain ⟨x, hx, hl⟩ := ihRest scope hge h
      exact ⟨x, by simp [hx], hl⟩
  | loop count body pos rest ihBody ihRest =>
    rw [places_loop]
    rcases Nat.lt_or_ge k (codeOf (before ++ [.loop count body pos])).length with hlt | hge
    · rw [codeOf_getElem?_head hlt, codeOf_loop, List.getElem?_append] at h
      split at h
      · obtain ⟨x, hx, hl⟩ := ihBody scope hk h
        exact ⟨x, by simp [hx], hl⟩
      · rename_i hbehind
        have hl := leaves_of_jumpBack (x := ⟨before, scope, .loop count body pos⟩) rfl h
        have hk' : (codeOf before).length + (codeAfter before body).length +
            (k - (codeOf (before ++ body)).length) = k := by
          rw [codeOf_append, List.length_append] at hbehind ⊢
          omega
        exact ⟨_, by simp, hk' ▸ hl⟩
    · rw [List.append_cons] at h
      obtain ⟨x, hx, hl⟩ := ihRest scope hge h
      exact ⟨x, by simp [hx], hl⟩
  | leaf s rest hleaf ih =>
    rw [places_leaf hleaf]
    rcases Nat.lt_or_ge k (codeOf (before ++ [s])).length with hlt | hge
    · rw [codeOf_getElem?_head hlt, codeOf_append, List.getElem?_append_right hk] at h
      have hl := leaves_of_leaf (x := ⟨before, scope, s⟩) hleaf h
      exact ⟨_, by simp, Nat.add_sub_of_le hk ▸ hl⟩
    · rw [List.append_cons] at h
      obtain ⟨x, hx, hl⟩ := ih scope hge h
      exact ⟨x, by simp [hx], hl⟩

theorem Place.Leaves.getElem? {before tree : List Statement} {scope : List String} {x : Place}
    (hx : x ∈ places before scope tree) {k : Nat} {j : Jump} (h : x.Leaves k j) :
    (codeOf (before ++ tree))[k]? = some (.jump j) := by
  obtain ⟨after, hafter⟩ := codeOf_prefix_place hx
  rw [← hafter]
  cases h with
  | jump hj =>
    rw [hj, codeOf_append, codeAfter_jump, List.append_assoc, Place.start]
    simp
  | loop hl hcount =>
    rw [hl, codeOf_append, codeAfter_loop, jumpBack, if_neg hcount, Place.start, Place.code]
    simp

end Ostinato.Link
