import Ostinato.Proofs.Linkable

/-!
# Bodies of labels only mark positions

A label can be followed by an indented body or stand alone in front of the same statements, and jumps
to it go to the same place. `flatten` turns the first spelling into the second everywhere in a tree,
and `link_flatten` says that linking does not tell the two trees apart but by where spans end and how
they nest.

The proof walks both trees side by side. The walk never reads the spans that it has collected, so the
two states differ in nothing else (`Beside`). The flat walk closes the span of a label at once and the
other one only behind the body, and the spans that are open in between are carried along.
-/

namespace Ostinato

/-- The tree in which each label stands alone in front of what was its body. -/
def flatten : List Statement → List Statement
  | [] => []
  | .label name body pos :: rest => .label name [] pos :: (flatten body ++ flatten rest)
  | .loop count body pos :: rest => .loop count (flatten body) pos :: flatten rest
  | s :: rest => s :: flatten rest

theorem flatten_leaf {s : Statement} (hs : s.isBlock = false) (rest : List Statement) :
    flatten (s :: rest) = s :: flatten rest := by
  cases s with
  | label | loop => simp [Statement.isBlock] at hs
  | _ => simp [flatten]

theorem label_mem_flatten {tree : List Statement} {name : String} {body : List Statement} {pos : Pos}
    (h : .label name body pos ∈ Forest.nodes (flatten tree)) : body = [] := by
  induction tree using Forest.induct with
  | nil => simp [flatten] at h
  | label name' body' pos' rest ihBody ihRest =>
    rw [flatten, Forest.nodes_label, Forest.nodes_nil, List.nil_append, Forest.nodes_append,
      List.mem_cons, List.mem_append] at h
    rcases h with h | h | h
    · cases h
      rfl
    · exact ihBody h
    · exact ihRest h
  | loop count body' pos' rest ihBody ihRest =>
    rw [flatten, Forest.nodes_loop, List.mem_cons, List.mem_append] at h
    rcases h with h | h | h
    · cases h
    · exact ihBody h
    · exact ihRest h
  | leaf s rest hs ih =>
    rw [flatten_leaf hs, Forest.nodes_leaf hs, List.mem_cons] at h
    rcases h with rfl | h
    · cases hs
    · exact ih h

def Span.mark (s : Span) : Span := { s with stop := s.start, scope := [] }

/-- Two programs that differ in the ends and scopes of their spans only. -/
structure Program.Reindented (p q : Program) : Prop where
  instructions : q.instructions = p.instructions
  labels : q.labels = p.labels
  jumpSites : q.jumpSites = p.jumpSites
  timeSignature : q.timeSignature = p.timeSignature
  sourceName : q.sourceName = p.sourceName
  spans : q.spans.Perm (p.spans.map Span.mark)

namespace Link

/-! ## Two walks side by side -/

/-- Two walks that both succeed, with states in some relation, or fail alike. -/
def Together (R : State → State → Prop) : Except Failure State → Except Failure State → Prop
  | .ok st, .ok st₂ => R st st₂
  | .error e, .error e₂ => e = e₂
  | _, _ => False

section
variable {R S : State → State → Prop} {r r₂ : Except Failure State}

theorem Together.bind {f f₂ : State → Except Failure State} (h : Together R r r₂)
    (hf : ∀ st st₂, R st st₂ → Together S (f st) (f₂ st₂)) :
    Together S (r.bind f) (r₂.bind f₂) := by
  cases r <;> cases r₂
  · exact h
  · exact h.elim
  · exact h.elim
  · exact hf _ _ h

theorem Together.map {f g : State → State} (h : Together R r r₂)
    (hf : ∀ st st₂, R st st₂ → S (f st) (g st₂)) : Together S (r.map f) (r₂.map g) := by
  cases r <;> cases r₂
  · exact h
  · exact h.elim
  · exact h.elim
  · exact hf _ _ h

end

/-- States that differ in their spans only. The flat one has the marks of the spans of the other, and
of those that are still open there. -/
structure Beside (pending : List Span) (st st₂ : State) : Prop where
  others : st₂ = { st with spans := st₂.spans }
  spans : st₂.spans.Perm (st.spans.map Span.mark ++ pending)

theorem emitAll_append (scope : List String) (st : State) (a b : List Statement) :
    emitAll scope st (a ++ b) = (emitAll scope st a).bind (emitAll scope · b) := by
  induction a generalizing st with
  | nil =>
    rw [List.nil_append, emitAll]
    rfl
  | cons s rest ih =>
    rw [List.cons_append, emitAll_cons, emitAll_cons]
    cases emit scope st s with
    | error e => rfl
    | ok st => exact ih st

theorem State.store?_spans (st : State) (spans : List Span) (s : Setting) :
    ({ st with spans := spans } : State).store? s = (st.store? s).map ({ · with spans := spans }) := by
  unfold State.store?
  dsimp only
  split <;> rfl

theorem emit_spans {s : Statement} (hs : s.isBlock = false) (scope scope₂ : List String) (st : State)
    (spans : List Span) :
    emit scope₂ { st with spans := spans } s =
      (emit scope st s).map ({ · with spans := spans }) := by
  cases s with
  | label | loop => simp [Statement.isBlock] at hs
  | setting s =>
    simp only [emit, State.set]
    split
    · rfl
    · split
      · rfl
      · rw [State.store?_spans]
        cases st.store? s <;> rfl
  | play p =>
    simp only [emit]
    split <;> rfl
  | _ => simp [emit, State.push, Except.map]

theorem spans_of_emit {s : Statement} (hs : s.isBlock = false) {scope : List String} {st st' : State}
    (h : emit scope st s = .ok st') : st'.spans = st.spans := by
  cases s with
  | label | loop => simp [Statement.isBlock] at hs
  | setting s =>
    rw [emit] at h
    exact (State.set_ok h).2.2.2.1
  | play p =>
    simp only [emit] at h
    split at h
    · cases h
    · cases h
      rfl
  | _ =>
    simp only [emit, Except.ok.injEq] at h
    subst h
    rfl

namespace Beside
variable {pending : List Span} {st st₂ : State}

theorem emit_leaf (h : Beside pending st st₂) {s : Statement} (hs : s.isBlock = false)
    (scope scope₂ : List String) :
    Together (Beside pending) (emit scope st s) (emit scope₂ st₂ s) := by
  rw [h.others, emit_spans hs scope scope₂]
  cases he : emit scope st s with
  | error e => exact rfl
  | ok st' => exact ⟨rfl, by rw [spans_of_emit hs he]; exact h.spans⟩

theorem leaveHeader (h : Beside pending st st₂) :
    Beside pending st.leaveHeader st₂.leaveHeader := by
  refine ⟨?_, h.spans⟩
  rw [State.leaveHeader, h.others]
  rfl

theorem closeLoop (h : Beside pending st st₂) (count : Option Int) (start : Nat) (pos : Pos) :
    Beside pending (st.closeLoop count start pos) (st₂.closeLoop count start pos) := by
  rw [h.others]
  unfold State.closeLoop
  split
  · exact ⟨rfl, h.spans⟩
  · exact ⟨rfl, h.spans⟩

/-- The flat walk is through with a label when the other one enters it. -/
theorem declare (h : Beside pending st st₂) (name : String) (pos : Pos) :
    Beside (pending ++ [⟨name, st.code.size, st.code.size, [], pos⟩]) (st.declare name pos)
      ((st₂.declare name pos).closeLabel name st₂.code.size [] pos) := by
  rw [h.others]
  refine ⟨rfl, ?_⟩
  rw [← List.append_assoc]
  exact h.spans.append_right _

theorem closeLabel {name : String} {start : Nat} {pos : Pos}
    (h : Beside (pending ++ [⟨name, start, start, [], pos⟩]) st st₂) (scope : List String) :
    Beside pending (st.closeLabel name start scope pos) st₂ := by
  refine ⟨h.others, h.spans.trans ?_⟩
  rw [State.closeLabel, List.map_append, List.append_assoc]
  exact List.perm_append_comm.append_left _

end Beside

theorem emit_label_dup {scope : List String} {st : State} {name : String} {body : List Statement}
    {pos : Pos} {first : Declaration} (h : st.declared.find? (·.name == name) = some first) :
    emit scope st (.label name body pos) = .error (.duplicateLabel name first.pos, pos) := by
  simp only [emit, h]

/-- The run lemma: from states side by side, the walks of a tree and of the flat one stay so. -/
theorem Beside.emitAll {tree : List Statement} {pending : List Span} {st st₂ : State}
    (h : Beside pending st st₂) (scope : List String) :
    Together (Beside pending) (emitAll scope st tree) (emitAll [] st₂ (flatten tree)) := by
  induction tree using Forest.induct generalizing pending st st₂ scope with
  | nil =>
    rw [flatten, Link.emitAll, Link.emitAll]
    exact h
  | label name body pos rest ihBody ihRest =>
    have hdeclared : st₂.declared = st.declared := by rw [h.others]
    rw [flatten, emitAll_cons, emitAll_cons]
    cases hfind : st.declared.find? (·.name == name) with
    | some first =>
      rw [emit_label_dup hfind, emit_label_dup (by rw [hdeclared]; exact hfind)]
      exact rfl
    | none =>
      -- The flat label is empty, and its body comes before the rest.
      rw [emit_label hfind, emit_label (by rw [hdeclared]; exact hfind), Link.emitAll]
      show Together _ _ (Link.emitAll [] ((st₂.declare name pos).closeLabel name _ [] pos) _)
      rw [emitAll_append]
      have hbody := (ihBody (h.declare name pos) (scope ++ [name])).map (g := id)
        fun _ _ hst => hst.closeLabel scope
      rw [show Except.map id = id from funext fun r => by cases r <;> rfl] at hbody
      exact hbody.bind fun _ _ hst => ihRest hst scope
  | loop count body pos rest ihBody ihRest =>
    have hcode : st₂.code = st.code := by rw [h.others]
    rw [flatten, emitAll_cons, emitAll_cons, emit_loop, emit_loop, hcode]
    have hbody := (ihBody h.leaveHeader scope).map
      fun _ _ hst => hst.closeLoop count st.code.size pos
    exact hbody.bind fun _ _ hst => ihRest hst scope
  | leaf s rest hs ih =>
    rw [flatten_leaf hs, emitAll_cons, emitAll_cons]
    exact (h.emit_leaf hs scope []).bind fun _ _ hst => ih hst scope

end Link

/-- **Label bodies only mark positions.** A tree and the flat one link to programs that differ in the
ends and scopes of their spans only, or fail to link for the same reason. -/
theorem link_flatten (tree : List Statement) (name : Option String) :
    (∃ p q, link tree name = .ok p ∧ link (flatten tree) name = .ok q ∧ p.Reindented q) ∨
      ∃ e, link tree name = .error e ∧ link (flatten tree) name = .error e := by
  have hstart : Link.Beside [] {} {} := ⟨rfl, .nil⟩
  have hwalk : Link.Together (Link.Beside []) (Link.emitAll [] {} tree)
      (Link.emitAll [] {} (flatten tree)) := hstart.emitAll []
  unfold link Link.program
  cases he : Link.emitAll [] {} tree with
  | error e =>
    cases he₂ : Link.emitAll [] {} (flatten tree) with
    | error e₂ =>
      rw [he, he₂] at hwalk
      cases hwalk
      exact .inr ⟨_, rfl, rfl⟩
    | ok st₂ =>
      rw [he, he₂] at hwalk
      exact hwalk.elim
  | ok st =>
    cases he₂ : Link.emitAll [] {} (flatten tree) with
    | error e₂ =>
      rw [he, he₂] at hwalk
      exact hwalk.elim
    | ok st₂ =>
      rw [he, he₂] at hwalk
      have hspans := hwalk.spans
      rw [List.append_nil] at hspans
      have hcode : st₂.code = st.code := by rw [hwalk.others]
      have hdeclared : st₂.declared = st.declared := by rw [hwalk.others]
      have hsignature : st₂.signature = st.signature := by rw [hwalk.others]
      dsimp only
      rw [hcode, hdeclared, hsignature]
      cases hr : Link.resolve st.declared 0 st.code.toList with
      | error e => exact .inr ⟨_, rfl, rfl⟩
      | ok out =>
        refine .inl ⟨_, _, rfl, rfl, rfl, rfl, rfl, rfl, rfl, ?_⟩
        exact (List.mergeSort_perm _ _).trans
          (hspans.trans ((List.mergeSort_perm _ _).symm.map _))

end Ostinato
