import Ostinato.Proofs.Places

/-!
# The layout of a linked program

`Layout` describes the symbol table, the spans and the jump sites of a flat program by the places of
its tree, and `link_layout` says that every program that links has this layout.

Spans are collected as their labels close. In that order a span either lies in a later one, whose
label is then in its scope, or ends before the later one starts (`SpanCloses`, `closed_pairwise`):
the nesting of the spans and, since sorting is stable, the order of the children follow from it.
-/

namespace Ostinato

open Forest (nodes)

namespace Link

/-! ## How spans lie -/

/-- What is known of the span of a label that stands in `tree`. -/
structure SpanWithin (before : List Statement) (scope : List String) (tree : List Statement)
    (sp : Span) : Prop where
  name : sp.name ∈ labelNames (nodes tree)
  scope : ∃ more, sp.scope = scope ++ more ∧ ∀ n ∈ more, n ∈ labelNames (nodes tree)
  start : ((codeOf before).length : Int) ≤ sp.start
  order : sp.start ≤ sp.stop
  stop : sp.stop ≤ (codeOf (before ++ tree)).length

section
variable {before before' tree tree' : List Statement} {scope scope' : List String} {sp : Span}

theorem SpanWithin.widen (h : SpanWithin before' scope' tree' sp)
    (hn : labelNames (nodes tree') ⊆ labelNames (nodes tree))
    (hs : ∃ more, scope' = scope ++ more ∧ more ⊆ labelNames (nodes tree))
    (hb : (codeOf before).length ≤ (codeOf before').length)
    (he : (codeOf (before' ++ tree')).length ≤ (codeOf (before ++ tree)).length) :
    SpanWithin before scope tree sp := by
  obtain ⟨hname, ⟨inner, hscope, hinner⟩, hstart, horder, hstop⟩ := h
  obtain ⟨outer, rfl, houter⟩ := hs
  refine ⟨hn hname, ⟨outer ++ inner, by rw [hscope, List.append_assoc], fun n hmem => ?_⟩,
    by omega, horder, by omega⟩
  rcases List.mem_append.mp hmem with hmem | hmem
  · exact houter hmem
  · exact hn (hinner n hmem)

theorem length_codeOf_le (a b : List Statement) :
    (codeOf a).length ≤ (codeOf (a ++ b)).length := by
  rw [codeOf_append, List.length_append]
  omega

theorem spanWithin_of_mem_closed (h : sp ∈ closed before scope tree) :
    SpanWithin before scope tree sp := by
  induction tree using Forest.induct generalizing before scope with
  | nil => simp at h
  | label name body pos rest ihBody ihRest =>
    have hbody : codeOf (before ++ body) = codeOf (before ++ [.label name body pos]) := by
      simp [codeOf_append]
    have hrest := (codeOf_prefix_cons before (.label name body pos) rest).length_le
    have hnames := labelNames_nodes_label name body pos rest
    simp only [closed, List.mem_append, List.mem_cons] at h
    rcases h with h | rfl | h
    · exact (ihBody h).widen (by rw [hnames]; simp) ⟨[name], rfl, by simp [hnames]⟩ le_rfl
        (by rwa [hbody])
    · rw [← hbody, codeOf_append, List.length_append] at hrest
      exact ⟨by simp [hnames], ⟨[], by simp, by simp⟩, le_rfl, by simp, Int.ofNat_le.mpr hrest⟩
    · exact (ihRest h).widen (by rw [hnames]; simp) ⟨[], by simp, by simp⟩ (length_codeOf_le _ _)
        (by simp)
  | loop count body pos rest ihBody ihRest =>
    have hbody : codeOf (before ++ body) <+: codeOf (before ++ [.loop count body pos]) := by
      simp [codeOf_append]
    have hrest := codeOf_prefix_cons before (.loop count body pos) rest
    have hnames := labelNames_nodes_loop count body pos rest
    simp only [closed, List.mem_append] at h
    rcases h with h | h
    · exact (ihBody h).widen (by rw [hnames]; simp) ⟨[], by simp, by simp⟩ le_rfl
        (hbody.trans hrest).length_le
    · exact (ihRest h).widen (by rw [hnames]; simp) ⟨[], by simp, by simp⟩ (length_codeOf_le _ _)
        (by simp)
  | leaf s rest hleaf ih =>
    rw [closed_leaf hleaf] at h
    exact (ih h).widen (by simp [Forest.nodes_leaf hleaf]) ⟨[], by simp, by simp⟩
      (length_codeOf_le _ _) (by simp)

/-- How a span lies to one that closes later: in it, if the other label is around it, and before
it otherwise. -/
def SpanCloses (a b : Span) : Prop :=
  a.name ∉ b.scope ∧
    (b.name ∈ a.scope ∧ b.start ≤ a.start ∧ a.stop ≤ b.stop ∨
      b.name ∉ a.scope ∧ a.stop ≤ b.start)

/-- Of labels in statements that share none, neither is around the other. -/
theorem SpanWithin.apart {a b : Span} (ha : SpanWithin before scope tree a)
    (hb : SpanWithin before' scope tree' b)
    (hout : ∀ n ∈ labelNames (nodes tree) ++ labelNames (nodes tree'), n ∉ scope)
    (hdis : (labelNames (nodes tree)).Disjoint (labelNames (nodes tree'))) :
    a.name ∉ b.scope ∧ b.name ∉ a.scope := by
  obtain ⟨inner, hinner, hin⟩ := ha.scope
  obtain ⟨inner', hinner', hin'⟩ := hb.scope
  refine ⟨fun hmem => ?_, fun hmem => ?_⟩
  · rw [hinner', List.mem_append] at hmem
    rcases hmem with hmem | hmem
    · exact hout a.name (by simp [ha.name]) hmem
    · exact hdis ha.name (hin' _ hmem)
  · rw [hinner, List.mem_append] at hmem
    rcases hmem with hmem | hmem
    · exact hout b.name (by simp [hb.name]) hmem
    · exact hdis (hin _ hmem) hb.name

theorem spanCloses_of_apart {a b : Span} (ha : SpanWithin before scope tree a)
    (hb : SpanWithin before' scope tree' b)
    (hend : (codeOf (before ++ tree)).length ≤ (codeOf before').length)
    (hout : ∀ n ∈ labelNames (nodes tree) ++ labelNames (nodes tree'), n ∉ scope)
    (hdis : (labelNames (nodes tree)).Disjoint (labelNames (nodes tree'))) : SpanCloses a b := by
  obtain ⟨hab, hba⟩ := ha.apart hb hout hdis
  have hstop := ha.stop
  have hstart := hb.start
  exact ⟨hab, .inr ⟨hba, by omega⟩⟩

theorem closed_pairwise_cons {s : Statement} {rest : List Statement}
    (hn : (labelNames (nodes (s :: rest))).Nodup)
    (hout : ∀ n ∈ labelNames (nodes (s :: rest)), n ∉ scope)
    (hs : (closed before scope [s]).Pairwise SpanCloses)
    (hrest : (closed (before ++ [s]) scope rest).Pairwise SpanCloses) :
    (closed before scope (s :: rest)).Pairwise SpanCloses := by
  rw [← List.singleton_append, Forest.nodes_append, labelNames_append] at hn hout
  rw [closed_cons]
  refine List.pairwise_append.mpr ⟨hs, hrest, fun a ha b hb => ?_⟩
  exact spanCloses_of_apart (spanWithin_of_mem_closed ha) (spanWithin_of_mem_closed hb) le_rfl hout
    (List.disjoint_of_nodup_append hn)

theorem closed_pairwise (hn : (labelNames (nodes tree)).Nodup)
    (hout : ∀ n ∈ labelNames (nodes tree), n ∉ scope) :
    (closed before scope tree).Pairwise SpanCloses := by
  induction tree using Forest.induct generalizing before scope with
  | nil => simp
  | label name body pos rest ihBody ihRest =>
    have hnames := labelNames_nodes_label name body pos rest
    have hn' := hnames ▸ hn
    have hout' := hnames ▸ hout
    obtain ⟨hname, hnodup⟩ := List.nodup_cons.mp hn'
    have hbody : (closed before (scope ++ [name]) body).Pairwise SpanCloses := by
      refine ihBody (List.Nodup.of_append_left hnodup) fun n hmem => ?_
      rw [List.mem_append, List.mem_singleton, not_or]
      exact ⟨hout' n (by simp [hmem]), fun e => hname (by simp [← e, hmem])⟩
    refine closed_pairwise_cons hn hout ?_
      (ihRest (List.Nodup.of_append_right hnodup) fun n hmem => hout' n (by simp [hmem]))
    simp only [closed, closed_nil]
    refine List.pairwise_append.mpr ⟨hbody, by simp, fun a ha b hb => ?_⟩
    -- The label closes behind all that stands in it.
    cases List.mem_singleton.mp hb
    have hin := spanWithin_of_mem_closed ha
    obtain ⟨more, hmore, -⟩ := hin.scope
    have hstop := hin.stop
    rw [codeOf_append, List.length_append] at hstop
    exact ⟨hout' a.name (by simp [hin.name]), .inl ⟨by simp [hmore], hin.start, by simpa using hstop⟩⟩
  | loop count body pos rest ihBody ihRest =>
    have hnames := labelNames_nodes_loop count body pos rest
    have hn' := hnames ▸ hn
    have hout' := hnames ▸ hout
    refine closed_pairwise_cons hn hout ?_
      (ihRest (List.Nodup.of_append_right hn') fun n hmem => hout' n (by simp [hmem]))
    simpa only [closed, List.append_nil] using
      ihBody (List.Nodup.of_append_left hn') fun n hmem => hout' n (by simp [hmem])
  | leaf s rest hleaf ih =>
    have hn' := hn
    rw [← List.singleton_append, Forest.nodes_append, labelNames_append] at hn'
    refine closed_pairwise_cons hn hout (by simp [closed_leaf hleaf])
      (ih (List.Nodup.of_append_right hn') fun n hmem => hout n ?_)
    rw [← List.singleton_append, Forest.nodes_append, labelNames_append]
    simp [hmem]

/-! ## Children -/

/-- The labels of some statements that stand in no other label, in program order. Loops make no
difference. -/
def direct : List Statement → List String
  | [] => []
  | .label name _ _ :: rest => name :: direct rest
  | .loop _ body _ :: rest => direct body ++ direct rest
  | _ :: rest => direct rest

def isChild (parent : Option String) (sp : Span) : Bool := sp.scope.getLast? == parent

/-- A label directly in one that is not in the tree stands in no label of the tree. -/
theorem SpanWithin.scope_eq {parent : Option String} (h : SpanWithin before scope tree sp)
    (hn : ∀ n ∈ labelNames (nodes tree), some n ≠ parent) (hp : isChild parent sp = true) :
    sp.scope = scope := by
  obtain ⟨more, hmore, hin⟩ := h.scope
  rcases List.eq_nil_or_concat more with rfl | ⟨init, last, rfl⟩
  · rw [hmore, List.append_nil]
  · rw [isChild, beq_iff_eq, hmore, List.concat_eq_append, ← List.append_assoc,
      List.getLast?_concat] at hp
    exact absurd hp (hn last (hin last (by simp)))

theorem filter_closed_eq_nil {parent : Option String} (hs : scope.getLast? ≠ parent)
    (hn : ∀ n ∈ labelNames (nodes tree), some n ≠ parent) :
    (closed before scope tree).filter (isChild parent) = [] := by
  rw [List.filter_eq_nil_iff]
  intro sp hmem hp
  have hscope := (spanWithin_of_mem_closed hmem).scope_eq hn hp
  rw [isChild, beq_iff_eq, hscope] at hp
  exact hs hp

theorem names_filter_closed {parent : Option String} (hs : scope.getLast? = parent)
    (hn : ∀ n ∈ labelNames (nodes tree), some n ≠ parent) :
    ((closed before scope tree).filter (isChild parent)).map (·.name) = direct tree := by
  induction tree using Forest.induct generalizing before with
  | nil => simp [direct]
  | label name body pos rest ihBody ihRest =>
    rw [labelNames_nodes_label] at hn
    have hbody : (closed before (scope ++ [name]) body).filter (isChild parent) = [] := by
      refine filter_closed_eq_nil ?_ fun n hmem => hn n (by simp [hmem])
      rw [List.getLast?_concat]
      exact hn name (by simp)
    rw [closed, List.filter_append, hbody, List.nil_append, List.filter_cons_of_pos (by simp [isChild, hs]),
      List.map_cons, ihRest fun n hmem => hn n (by simp [hmem]), direct]
  | loop count body pos rest ihBody ihRest =>
    rw [labelNames_nodes_loop] at hn
    rw [closed, List.filter_append, List.map_append, ihBody fun n hmem => hn n (by simp [hmem]),
      ihRest fun n hmem => hn n (by simp [hmem]), direct]
  | leaf s rest hleaf ih =>
    rw [closed_leaf hleaf, ih fun n hmem => hn n (by simp [Forest.nodes_leaf hleaf, hmem])]
    cases s with
    | label | loop => simp [Statement.isBlock] at hleaf
    | _ => simp [direct]

theorem name_mem_of_place {x : Place} {name : String} {body : List Statement} {pos : Pos}
    (hx : x ∈ places before scope tree) (hl : x.statement = .label name body pos) :
    name ∈ labelNames (nodes tree) := by
  refine List.mem_filterMap.mpr ⟨.label name body pos, ?_, rfl⟩
  rw [← statements_places before scope tree, ← hl]
  exact List.mem_map_of_mem hx

theorem filter_closed_of_not_mem {name : String} (hs : scope.getLast? ≠ some name)
    (hn : name ∉ labelNames (nodes tree)) :
    (closed before scope tree).filter (isChild (some name)) = [] :=
  filter_closed_eq_nil hs fun _ hmem e => hn (Option.some.inj e ▸ hmem)

theorem filter_closed_eq {x : Place} {name : String} {body : List Statement} {pos : Pos}
    (hx : x ∈ places before scope tree) (hl : x.statement = .label name body pos)
    (hn : (labelNames (nodes tree)).Nodup) (hs : scope.getLast? ≠ some name) :
    (closed before scope tree).filter (isChild (some name)) =
      (closed x.before (x.scope ++ [name]) body).filter (isChild (some name)) := by
  induction tree using Forest.induct generalizing before scope with
  | nil => simp at hx
  | label n b p rest ihBody ihRest =>
    rw [labelNames_nodes_label] at hn
    obtain ⟨hfresh, hnodup⟩ := List.nodup_cons.mp hn
    have hdis := List.disjoint_of_nodup_append hnodup
    rw [List.mem_append, not_or] at hfresh
    rw [closed, List.filter_append, List.filter_cons_of_neg (by simpa [isChild] using hs)]
    rw [places_label, List.mem_cons, List.mem_append] at hx
    rcases hx with rfl | hx | hx
    · cases hl
      rw [filter_closed_of_not_mem hs hfresh.2, List.append_nil]
    · have hin := name_mem_of_place hx hl
      have hne : n ≠ name := fun e => hfresh.1 (e ▸ hin)
      rw [ihBody hx (List.Nodup.of_append_left hnodup) (by simpa using hne),
        filter_closed_of_not_mem hs (hdis hin), List.append_nil]
    · have hin := name_mem_of_place hx hl
      have hne : n ≠ name := fun e => hfresh.2 (e ▸ hin)
      rw [ihRest hx (List.Nodup.of_append_right hnodup) hs,
        filter_closed_of_not_mem (by simpa using hne) fun hmem => hdis hmem hin, List.nil_append]
  | loop count b p rest ihBody ihRest =>
    rw [labelNames_nodes_loop] at hn
    have hdis := List.disjoint_of_nodup_append hn
    rw [closed, List.filter_append]
    rw [places_loop, List.mem_cons, List.mem_append] at hx
    rcases hx with rfl | hx | hx
    · cases hl
    · have hin := name_mem_of_place hx hl
      rw [ihBody hx (List.Nodup.of_append_left hn) hs, filter_closed_of_not_mem hs (hdis hin),
        List.append_nil]
    · have hin := name_mem_of_place hx hl
      rw [ihRest hx (List.Nodup.of_append_right hn) hs,
        filter_closed_of_not_mem hs fun hmem => hdis hmem hin, List.nil_append]
  | leaf s rest hleaf ih =>
    rw [closed_leaf hleaf]
    rw [places_leaf hleaf, List.mem_cons] at hx
    rcases hx with rfl | hx
    · cases hl
      simp [Statement.isBlock] at hleaf
    · rw [Forest.nodes_leaf hleaf, labelNames_cons] at hn
      exact ih hx (List.Nodup.of_append_right hn) hs

theorem names_of_place {x : Place} (hx : x ∈ places before scope tree)
    (hn : (labelNames (nodes tree)).Nodup) (hout : ∀ n ∈ labelNames (nodes tree), n ∉ scope) :
    (labelNames (nodes [x.statement])).Nodup ∧
      ∀ n ∈ labelNames (nodes [x.statement]), n ∉ x.scope := by
  induction tree using Forest.induct generalizing before scope with
  | nil => simp at hx
  | label name body pos rest ihBody ihRest =>
    rw [← List.singleton_append, Forest.nodes_append, labelNames_append] at hn hout
    have hhead : (labelNames (nodes [.label name body pos])).Nodup := hn.of_append_left
    rw [places_label, List.mem_cons, List.mem_append] at hx
    rcases hx with rfl | hx | hx
    · exact ⟨hhead, fun n hmem => hout n (by simp [hmem])⟩
    · have hnames : labelNames (nodes [.label name body pos]) =
          name :: labelNames (nodes body) := by
        simp [Forest.nodes_label, Statement.labelName?]
      rw [hnames] at hhead hout
      obtain ⟨hfresh, hbody⟩ := List.nodup_cons.mp hhead
      refine ihBody hx hbody fun n hmem => ?_
      rw [List.mem_append, List.mem_singleton, not_or]
      exact ⟨hout n (by simp [hmem]), fun e => hfresh (e ▸ hmem)⟩
    · exact ihRest hx hn.of_append_right fun n hmem => hout n (by simp [hmem])
  | loop count body pos rest ihBody ihRest =>
    rw [← List.singleton_append, Forest.nodes_append, labelNames_append] at hn hout
    have hhead : (labelNames (nodes [.loop count body pos])).Nodup := hn.of_append_left
    rw [places_loop, List.mem_cons, List.mem_append] at hx
    rcases hx with rfl | hx | hx
    · exact ⟨hhead, fun n hmem => hout n (by simp [hmem])⟩
    · have hnames : labelNames (nodes [.loop count body pos]) = labelNames (nodes body) := by
        simp [Forest.nodes_loop, Statement.labelName?]
      rw [hnames] at hhead hout
      exact ihBody hx hhead fun n hmem => hout n (by simp [hmem])
    · exact ihRest hx hn.of_append_right fun n hmem => hout n (by simp [hmem])
  | leaf s rest hleaf ih =>
    rw [← List.singleton_append, Forest.nodes_append, labelNames_append] at hn hout
    rw [places_leaf hleaf, List.mem_cons] at hx
    rcases hx with rfl | hx
    · exact ⟨hn.of_append_left, fun n hmem => hout n (by simp [hmem])⟩
    · exact ih hx hn.of_append_right fun n hmem => hout n (by simp [hmem])

/-- The children of one label close in the order in which they are sorted. -/
theorem filter_closed_sorted {parent : Option String} (hn : (labelNames (nodes tree)).Nodup)
    (hout : ∀ n ∈ labelNames (nodes tree), n ∉ scope)
    (hp : ∀ n ∈ labelNames (nodes tree), some n ≠ parent) :
    ((closed before scope tree).filter (isChild parent)).Pairwise fun a b => spanLe a b = true := by
  refine List.Pairwise.imp_of_mem ?_ ((closed_pairwise hn hout).sublist List.filter_sublist)
  intro a b ha hb hab
  obtain ⟨ha, hap⟩ := List.mem_filter.mp ha
  obtain ⟨hb, hbp⟩ := List.mem_filter.mp hb
  have ha := spanWithin_of_mem_closed ha
  have hb := spanWithin_of_mem_closed hb
  have hscope := ha.scope_eq hp hap
  rcases hab.2 with ⟨hmem, -⟩ | ⟨-, hle⟩
  · exact absurd (hscope ▸ hmem) (hout b.name hb.name)
  · have horder := ha.order
    have hdepth : a.depth = b.depth := by
      rw [Span.depth, Span.depth, hscope, hb.scope_eq hp hbp]
    simp only [spanLe, hdepth, Nat.le_refl, decide_true, Bool.and_true, Bool.or_eq_true,
      decide_eq_true_eq, beq_iff_eq]
    omega

end

theorem spanLe_trans (a b c : Span) (hab : spanLe a b = true) (hbc : spanLe b c = true) :
    spanLe a c = true := by
  simp only [spanLe, Bool.or_eq_true, Bool.and_eq_true, decide_eq_true_eq, beq_iff_eq] at *
  omega

theorem spanLe_total (a b : Span) : (spanLe a b || spanLe b a) = true := by
  simp only [spanLe, Bool.or_eq_true, Bool.and_eq_true, decide_eq_true_eq, beq_iff_eq]
  omega

/-- Sorting is stable: spans that are in order keep it. -/
theorem filter_mergeSort {l : List Span} {q : Span → Bool}
    (h : (l.filter q).Pairwise fun a b => spanLe a b = true) :
    (l.mergeSort spanLe).filter q = l.filter q := by
  have hsub : (l.filter q).Sublist (l.mergeSort spanLe) :=
    List.sublist_mergeSort spanLe_trans spanLe_total h List.filter_sublist
  have hfilter := hsub.filter q
  rw [List.filter_filter] at hfilter
  simp only [Bool.and_self] at hfilter
  exact (hfilter.eq_of_length ((List.mergeSort_perm l spanLe).filter q).length_eq.symm).symm

/-! ## Programs -/

/-- An instruction with its jump resolved by a symbol table. -/
def resolved (labels : List (String × Int)) : Statement → Statement
  | .jump j => .jump { j with target := j.target.or (labels.lookup j.label) }
  | s => s

/-- What the flat program `p` of a tree looks like. -/
structure Layout (tree : List Statement) (p : Program) : Prop where
  /-- The instructions are the code of the tree with its jumps resolved. -/
  code : p.instructions.toList = (codeOf tree).map (resolved p.labels)
  /-- The symbol table has one entry for each label, in program order. -/
  labels : p.labels.map (·.1) = labelNames (nodes tree)
  distinct : (labelNames (nodes tree)).Nodup
  /-- There is one span for each label. -/
  spans : (p.spans.map (·.name)).Perm (labelNames (nodes tree))
  bounds : ∀ sp ∈ p.spans, 0 ≤ sp.start ∧ sp.start ≤ sp.stop ∧ sp.stop ≤ p.length
  /-- A label starts behind the code of all that comes before it and stops behind that of its body;
  its scope is made of the labels around it. -/
  label : ∀ x ∈ places [] [] tree, ∀ name body pos, x.statement = .label name body pos →
    p.labels.lookup name = some (x.start : Int) ∧
      p.span? name = some ⟨name, x.start, x.start + (x.code body).length, x.scope, pos⟩
  /-- From there stands what the body, of a label or of a loop, is lowered to. -/
  body : ∀ x ∈ places [] [] tree, ∀ body, x.statement.body? = some body →
    (p.instructions.extract x.start (x.start + (x.code body).length)).toList =
      (x.code body).map (resolved p.labels)
  inside : ∀ a ∈ p.spans, ∀ b ∈ p.spans, b.name ∈ a.scope → b.start ≤ a.start ∧ a.stop ≤ b.stop
  disjoint : ∀ a ∈ p.spans, ∀ b ∈ p.spans, a.name ≠ b.name → a.name ∉ b.scope →
    b.name ∉ a.scope → a.stop ≤ b.start ∨ b.stop ≤ a.start
  /-- The children of a label are the labels directly in its body, in program order. -/
  children : ∀ x ∈ places [] [] tree, ∀ name body pos, x.statement = .label name body pos →
    (p.children (some name)).map (·.name) = direct body
  topLevel : (p.children none).map (·.name) = direct tree
  /-- The sites are those of the jumps in the code, in the order of their indices. -/
  sites : p.jumpSites = sitesFrom 0 p.instructions.toList
  targets : ∀ i j, p.at? i = some (.jump j) →
    ∃ t, j.target = some t ∧ ⟨i, j.label, t, j.count⟩ ∈ p.jumpSites
  /-- A jump of the source goes to its label. -/
  jump : ∀ x ∈ places [] [] tree, ∀ j, x.statement = .jump j →
    ∃ t, p.labels.lookup j.label = some t ∧
      p.at? x.start = some (.jump { j with target := some t })
  /-- Behind the body of a loop, unless it runs once, a jump goes back to its start. -/
  loop : ∀ x ∈ places [] [] tree, ∀ count body pos, x.statement = .loop count body pos →
    count ≠ some 1 → p.at? (x.start + (x.code body).length : Nat) =
      some (.jump ⟨loopName pos, count.map (· - 1), some (x.start : Int), pos⟩)
  /-- There are no other jumps. -/
  jumps : ∀ i j, p.at? i = some (.jump j) →
    ∃ x ∈ places [] [] tree, ∃ (k : Nat) (j₀ : Jump), x.Leaves k j₀ ∧ i = k ∧
      .jump j = resolved p.labels (.jump j₀)

theorem find?_of_mem {α : Type} {name : α → String} {l : List α} (hn : (l.map name).Nodup) {a : α}
    (ha : a ∈ l) : l.find? (name · == name a) = some a := by
  induction l with
  | nil => cases ha
  | cons b rest ih =>
    obtain ⟨hfresh, hrest⟩ := List.nodup_cons.mp hn
    rcases List.mem_cons.mp ha with rfl | ha
    · simp
    · have hne : (name b == name a) = false := by
        rw [beq_eq_false_iff_ne]
        exact fun e => hfresh (e ▸ List.mem_map_of_mem ha)
      rw [List.find?_cons, hne]
      exact ih hrest ha

theorem names_declarations (tree : List Statement) :
    (declarations {} 0 tree).map (·.name) = labelNames (nodes tree) := by
  have h := declarations_eq [] [] tree
  have hnone : codeOf [] = [] := by simp [codeOf, lower]
  simp only [hnone, Defaults.after, List.length_nil] at h
  rw [h, ← statements_places [] [] tree, labelNames, List.map_filterMap, List.filterMap_map]
  congr
  funext x
  simp only [Place.declaration?, Function.comp_apply, Statement.labelName?]
  split <;> simp_all

theorem names_places (tree : List Statement) :
    ((places [] [] tree).filterMap Place.span?).map (·.name) = labelNames (nodes tree) := by
  rw [← statements_places [] [] tree, labelNames, List.map_filterMap, List.filterMap_map]
  congr
  funext x
  simp only [Place.span?, Function.comp_apply, Statement.labelName?]
  split <;> simp_all

theorem link_spans {tree : List Statement} {name : Option String} {p : Program}
    (h : link tree name = .ok p) :
    p.spans = (closed [] [] tree).mergeSort spanLe ∧ (labelNames (nodes tree)).Nodup := by
  have hstart : Past {} [] := ⟨by simp [codeOf, lower], rfl⟩
  unfold link program at h
  cases he : emitAll [] {} tree with
  | error e => simp [he] at h
  | ok st =>
    have hwalk := walk_of_emitAll he
    have hspans : st.spans = closed [] [] tree := by simpa using hwalk.spans hstart
    have hdeclared : st.declared = declarations {} 0 tree := by simpa using hwalk.code.2
    cases hr : resolve st.declared 0 st.code.toList with
    | error e => simp [he, hr] at h
    | ok out =>
      simp only [he, hr, Except.ok.injEq] at h
      subst h
      refine ⟨by rw [← hspans], ?_⟩
      rw [← names_declarations, ← hdeclared]
      exact hwalk.nodup List.nodup_nil

theorem settle_eq_resolved (declared : List Declaration) :
    settle declared = resolved (declared.map fun d => (d.name, (d.start : Int))) := by
  funext s
  cases s <;> simp [settle, resolved, lookup_labels]

theorem codeAfter_body {s : Statement} {body : List Statement} (h : s.body? = some body)
    (before : List Statement) :
    codeAfter before body <+: codeAfter before [s] := by
  cases s with
  | label name b pos =>
    cases h
    simp
  | loop count b pos =>
    cases h
    simp
  | _ => cases h

section
variable {tree : List Statement} {name : Option String} {p : Program}

theorem link_code (h : link tree name = .ok p) :
    p.instructions.toList = (codeOf tree).map (resolved p.labels) := by
  obtain ⟨hcode, hlabels, -⟩ := link_ok h
  rw [hcode, hlabels, settle_eq_resolved]
  rfl

theorem link_length (h : link tree name = .ok p) : p.length = (codeOf tree).length := by
  rw [Program.length, ← Array.length_toList, link_code h, List.length_map]

theorem mem_spans_iff (h : link tree name = .ok p) {sp : Span} :
    sp ∈ p.spans ↔ sp ∈ closed [] [] tree := by
  rw [(link_spans h).1]
  exact (List.mergeSort_perm _ _).mem_iff

theorem names_spans (h : link tree name = .ok p) :
    (p.spans.map (·.name)).Perm (labelNames (nodes tree)) := by
  rw [(link_spans h).1, ← names_places]
  exact ((List.mergeSort_perm _ _).trans (closed_perm [] [] tree)).map _

theorem link_slice (h : link tree name = .ok p) {x : Place} (hx : x ∈ places [] [] tree)
    {body : List Statement} (hb : x.statement.body? = some body) :
    (p.instructions.extract x.start (x.start + (x.code body).length)).toList =
      (x.code body).map (resolved p.labels) := by
  obtain ⟨after, hafter⟩ := codeOf_prefix_place hx
  obtain ⟨back, hback⟩ := codeAfter_body hb x.before
  have hcode : codeOf tree = codeOf x.before ++ (x.code body ++ (back ++ after)) := by
    rw [List.nil_append] at hafter
    rw [← hafter, codeOf_append, ← hback, Place.code, List.append_assoc, List.append_assoc]
  rw [Array.toList_extract, link_code h, hcode, List.map_append, List.map_append]
  simp [Place.start]

theorem link_label (h : link tree name = .ok p) {x : Place} (hx : x ∈ places [] [] tree)
    {n : String} {body : List Statement} {pos : Pos} (hl : x.statement = .label n body pos) :
    p.labels.lookup n = some (x.start : Int) ∧
      p.span? n = some ⟨n, x.start, x.start + (x.code body).length, x.scope, pos⟩ := by
  obtain ⟨-, hlabels, -⟩ := link_ok h
  obtain ⟨hspans, hn⟩ := link_spans h
  constructor
  · have hmem : ⟨n, pos, x.start⟩ ∈ declarations {} 0 tree := by
      have heq : declarations {} 0 tree = (places [] [] tree).filterMap Place.declaration? := by
        rw [← declarations_eq]
        simp [codeOf, lower, Defaults.after]
      rw [heq]
      exact List.mem_filterMap.mpr ⟨x, hx, by simp [Place.declaration?, hl]⟩
    have hfind := find?_of_mem (by rw [names_declarations]; exact hn) hmem
    rw [hlabels, lookup_labels, start?, hfind]
    rfl
  · have hmem : ⟨n, x.start, x.start + (x.code body).length, x.scope, pos⟩ ∈ p.spans := by
      rw [mem_spans_iff h, (closed_perm [] [] tree).mem_iff]
      exact List.mem_filterMap.mpr ⟨x, hx, by simp [Place.span?, hl]⟩
    exact find?_of_mem ((names_spans h).nodup_iff.mpr hn) hmem

theorem link_bounds (h : link tree name = .ok p) {sp : Span} (hsp : sp ∈ p.spans) :
    0 ≤ sp.start ∧ sp.start ≤ sp.stop ∧ sp.stop ≤ p.length := by
  have hwithin := spanWithin_of_mem_closed ((mem_spans_iff h).mp hsp)
  have hstart := hwithin.start
  rw [link_length h]
  exact ⟨by omega, hwithin.order, hwithin.stop⟩

theorem spanCloses_or (h : link tree name = .ok p) {a b : Span} (ha : a ∈ p.spans)
    (hb : b ∈ p.spans) (hne : a ≠ b) : SpanCloses a b ∨ SpanCloses b a := by
  have hpair : (closed [] [] tree).Pairwise SpanCloses :=
    closed_pairwise (link_spans h).2 (by simp)
  have hsym : (closed [] [] tree).Pairwise fun a b => SpanCloses a b ∨ SpanCloses b a :=
    hpair.imp .inl
  have : Std.Symm fun a b => SpanCloses a b ∨ SpanCloses b a := ⟨fun _ _ => Or.symm⟩
  exact hsym.forall ((mem_spans_iff h).mp ha) ((mem_spans_iff h).mp hb) hne

theorem link_inside (h : link tree name = .ok p) {a b : Span} (ha : a ∈ p.spans)
    (hb : b ∈ p.spans) (hmem : b.name ∈ a.scope) : b.start ≤ a.start ∧ a.stop ≤ b.stop := by
  by_cases hab : a = b
  · rw [hab]
    exact ⟨le_rfl, le_rfl⟩
  · rcases spanCloses_or h ha hb hab with ⟨-, ⟨-, hin⟩ | ⟨hnot, -⟩⟩ | ⟨hnot, -⟩
    · exact hin
    · exact absurd hmem hnot
    · exact absurd hmem hnot

theorem link_disjoint (h : link tree name = .ok p) {a b : Span} (ha : a ∈ p.spans)
    (hb : b ∈ p.spans) (hne : a ≠ b) (hab : a.name ∉ b.scope) (hba : b.name ∉ a.scope) :
    a.stop ≤ b.start ∨ b.stop ≤ a.start := by
  rcases spanCloses_or h ha hb hne with ⟨-, ⟨hmem, -⟩ | ⟨-, hle⟩⟩ | ⟨-, ⟨hmem, -⟩ | ⟨-, hle⟩⟩
  · exact absurd hmem hba
  · exact .inl hle
  · exact absurd hmem hab
  · exact .inr hle

theorem children_eq (parent : Option String) :
    p.children parent = p.spans.filter (isChild parent) := by
  cases parent with
  | none =>
    refine List.filter_congr fun sp _ => ?_
    rw [Bool.eq_iff_iff]
    simp [isChild]
  | some n => rfl

theorem link_children (h : link tree name = .ok p) {x : Place} (hx : x ∈ places [] [] tree)
    {n : String} {body : List Statement} {pos : Pos} (hl : x.statement = .label n body pos) :
    (p.children (some n)).map (·.name) = direct body := by
  obtain ⟨hspans, hn⟩ := link_spans h
  have hnames : labelNames (nodes [x.statement]) = n :: labelNames (nodes body) := by
    simp [hl, Forest.nodes_label, Statement.labelName?]
  obtain ⟨hnodup, hout⟩ := names_of_place hx hn (by simp)
  rw [hnames] at hnodup hout
  obtain ⟨hfresh, hbody⟩ := List.nodup_cons.mp hnodup
  have hne : ∀ m ∈ labelNames (nodes body), some m ≠ some n :=
    fun m hm e => hfresh (Option.some.inj e ▸ hm)
  have hfilter := filter_closed_eq hx hl hn (by simp)
  have hsorted : ((closed x.before (x.scope ++ [n]) body).filter (isChild (some n))).Pairwise
      fun a b => spanLe a b = true := by
    refine filter_closed_sorted hbody (fun m hm => ?_) hne
    rw [List.mem_append, List.mem_singleton, not_or]
    exact ⟨hout m (by simp [hm]), fun e => hfresh (e ▸ hm)⟩
  rw [children_eq, hspans, filter_mergeSort (by rwa [hfilter]), hfilter]
  exact names_filter_closed List.getLast?_concat hne

theorem link_topLevel (h : link tree name = .ok p) :
    (p.children none).map (·.name) = direct tree := by
  obtain ⟨hspans, hn⟩ := link_spans h
  have hsorted : ((closed [] [] tree).filter (isChild none)).Pairwise
      fun a b => spanLe a b = true := filter_closed_sorted hn (by simp) (by simp)
  rw [children_eq, hspans, filter_mergeSort hsorted]
  exact names_filter_closed rfl (by simp)

theorem link_jump (h : link tree name = .ok p) {x : Place} (hx : x ∈ places [] [] tree) {k : Nat}
    {j : Jump} (hl : x.Leaves k j) : p.at? k = some (resolved p.labels (.jump j)) := by
  have hk := hl.getElem? hx
  rw [List.nil_append] at hk
  rw [Program.at?_eq_some, link_code h]
  exact ⟨by omega, by simp [hk]⟩

theorem link_site (h : link tree name = .ok p) {i : Int} {j : Jump}
    (hj : p.at? i = some (.jump j)) :
    ∃ t, j.target = some t ∧ ⟨i, j.label, t, j.count⟩ ∈ p.jumpSites := by
  obtain ⟨-, -, hsites, htargets⟩ := link_ok h
  obtain ⟨t, ht⟩ := htargets j (Program.mem_of_at? hj)
  obtain ⟨h0, hs⟩ := Program.at?_eq_some.mp hj
  refine ⟨t, ht, ?_⟩
  rw [hsites, mem_sitesFrom]
  exact ⟨i.toNat, .jump j, hs, site?_eq_some.mpr ⟨j.pos, by simp; omega, by rw [← ht]⟩⟩

theorem link_leaves (h : link tree name = .ok p) {i : Int} {j : Jump}
    (hj : p.at? i = some (.jump j)) :
    ∃ x ∈ places [] [] tree, ∃ (k : Nat) (j₀ : Jump), x.Leaves k j₀ ∧ i = k ∧
      .jump j = resolved p.labels (.jump j₀) := by
  obtain ⟨h0, hat⟩ := Program.at?_eq_some.mp hj
  rw [link_code h, List.getElem?_map, Option.map_eq_some_iff] at hat
  obtain ⟨s, hs, hr⟩ := hat
  cases s with
  | jump j₀ =>
    have hstart : (codeOf []).length ≤ i.toNat := by simp [codeOf, lower]
    obtain ⟨x, hx, hl⟩ := exists_leaves [] hstart hs
    exact ⟨x, hx, i.toNat, j₀, hl, by omega, hr.symm⟩
  | _ => cases hr

end

/-- **The symbol table, the spans and the jump sites describe the program.** Every tree that links,
its jumps being without targets, gives a program of this layout. -/
theorem link_layout {tree : List Statement} {name : Option String} {p : Program}
    (hj : ∀ j, .jump j ∈ nodes tree → j.target = none) (h : link tree name = .ok p) :
    Layout tree p where
  code := link_code h
  labels := by
    rw [(link_ok h).2.1, List.map_map, ← names_declarations]
    rfl
  distinct := (link_spans h).2
  spans := names_spans h
  bounds sp hsp := link_bounds h hsp
  label x hx n body pos hl := link_label h hx hl
  body x hx body hb := link_slice h hx hb
  inside a ha b hb hmem := link_inside h ha hb hmem
  disjoint a ha b hb hne hab hba := link_disjoint h ha hb (fun e => hne (by rw [e])) hab hba
  children x hx n body pos hl := link_children h hx hl
  topLevel := link_topLevel h
  sites := (link_ok h).2.2.1
  targets i j hat := link_site h hat
  jump x hx j hl := by
    have hsource : j.target = none := by
      refine hj j ?_
      rw [← statements_places [] [] tree, ← hl]
      exact List.mem_map_of_mem hx
    have hat := link_jump h hx (.jump hl)
    rw [resolved, hsource, Option.none_or] at hat
    obtain ⟨t, ht, -⟩ := link_site h hat
    exact ⟨t, ht, by rw [hat, ← ht]⟩
  loop x hx count body pos hl hcount := link_jump h hx (.loop hl hcount)
  jumps i j hat := link_leaves h hat

/-- Labels that share a start, one of them empty and in a loop, and a jump to a label behind it. -/
def nestTree : List Statement :=
  [.setting { name := "velocity", value := .number 80 },
    .label "a"
      [.loop (some 2) [.label "b" [] ⟨3, 3⟩, .wait { amount := 1 }] ⟨2, 2⟩, .jump { label := "c" }]
      ⟨1, 1⟩,
    .label "c" [] ⟨5, 1⟩]

def nestProgram : Program where
  instructions := #[.wait { amount := 1 }, .jump ⟨"loop@2", some 1, some 0, ⟨2, 2⟩⟩,
    .jump { label := "c", target := some 3 }]
  labels := [("a", 0), ("b", 0), ("c", 3)]
  spans := [⟨"a", 0, 3, [], ⟨1, 1⟩⟩, ⟨"b", 0, 0, ["a"], ⟨3, 3⟩⟩, ⟨"c", 3, 3, [], ⟨5, 1⟩⟩]
  jumpSites := [⟨1, "loop@2", 0, some 1⟩, ⟨2, "c", 3, none⟩]

theorem link_nest : link nestTree none = .ok nestProgram := by
  cbv

theorem link_layout_nest : (∀ j, .jump j ∈ nodes nestTree → j.target = none) ∧
    link nestTree none = .ok nestProgram ∧ Layout nestTree nestProgram := by
  have hj : ∀ j, .jump j ∈ nodes nestTree → j.target = none := by
    intro j hj
    simp only [nestTree, nodes, List.mem_append, List.mem_cons, List.not_mem_nil, reduceCtorEq,
      Statement.jump.injEq, or_false, false_or] at hj
    rw [hj]
  exact ⟨hj, link_nest, link_layout hj link_nest⟩

end Link

end Ostinato
