import Ostinato.Compile
import Ostinato.Proofs.Listing
import Ostinato.Proofs.Naming

/-!
# The order of spans

Spans are collected as their labels close and sorted by where they start, outer ones first. That comes
to sorting them in the order in which the labels are declared: spans that the sort does not tell apart
lie equally deep, and labels that lie equally deep close as they open (`filter_depth`). So the order of
declaration is kept but where a label starts together with one that lies deeper and was declared
before it, which is empty then. `InStep` excludes this.
-/

namespace Ostinato

open Forest (nodes)

namespace Link

/-! ## The order of declaration -/

/-- The spans of the labels of a tree in the order in which the labels are declared. -/
def opened (before : List Statement) (scope : List String) (tree : List Statement) : List Span :=
  (places before scope tree).filterMap Place.span?

/-- Whatever stands between a label and one that is nested in it is nested in it too. -/
def Nested : List Span → Prop
  | [] => True
  | a :: rest => (rest.Pairwise fun b c => a.name ∈ c.scope → a.name ∈ b.scope) ∧ Nested rest

/-- How a span lies to one that opens later. -/
structure SpanOpens (a b : Span) : Prop where
  start : a.start ≤ b.start
  outside : b.name ∉ a.scope
  /-- The later one is nested in the other, or starts behind it. -/
  lies : a.name ∈ b.scope ∧ a.depth < b.depth ∨ a.name ∉ b.scope ∧ a.stop ≤ b.start

/-- The spans stand as a walk through their tree comes upon them. -/
structure TreeOrder (spans : List Span) : Prop where
  opens : spans.Pairwise SpanOpens
  nested : Nested spans

section
variable {before before' tree rest : List Statement} {scope : List String} {sp a b : Span}

theorem opened_nil : opened before scope [] = [] := by
  rw [opened, places_nil]
  rfl

theorem opened_label (name : String) (body : List Statement) (pos : Pos) :
    opened before scope (.label name body pos :: rest) =
      ⟨name, (codeOf before).length, (codeOf before).length + (codeAfter before body).length, scope,
        pos⟩ :: (opened before (scope ++ [name]) body ++
          opened (before ++ [.label name body pos]) scope rest) := by
  rw [opened, places_label, List.filterMap_cons, List.filterMap_append]
  rfl

theorem opened_loop (count : Option Int) (body : List Statement) (pos : Pos) :
    opened before scope (.loop count body pos :: rest) =
      opened before scope body ++ opened (before ++ [.loop count body pos]) scope rest := by
  rw [opened, places_loop, List.filterMap_cons, List.filterMap_append]
  rfl

theorem opened_leaf {s : Statement} (hs : s.isBlock = false) :
    opened before scope (s :: rest) = opened (before ++ [s]) scope rest := by
  rw [opened, places_leaf hs, List.filterMap_cons]
  cases s with
  | label | loop => simp [Statement.isBlock] at hs
  | _ => rfl

theorem opened_cons (before : List Statement) (scope : List String) (s : Statement)
    (rest : List Statement) :
    opened before scope (s :: rest) = opened before scope [s] ++ opened (before ++ [s]) scope rest := by
  cases s with
  | label name body pos => simp [opened_label, opened_nil]
  | loop count body pos => simp [opened_loop, opened_nil]
  | _ => rw [opened_leaf rfl, opened_leaf rfl, opened_nil, List.nil_append]

theorem spanWithin_of_mem_opened (h : sp ∈ opened before scope tree) :
    SpanWithin before scope tree sp :=
  spanWithin_of_mem_closed ((closed_perm before scope tree).mem_iff.mpr h)

theorem SpanWithin.le_depth (h : SpanWithin before scope tree sp) : scope.length ≤ sp.depth := by
  obtain ⟨more, hmore, -⟩ := h.scope
  rw [Span.depth, hmore, List.length_append]
  omega

/-- Labels that lie equally deep close in the order in which they open. -/
theorem filter_depth (depth : Nat) (before : List Statement) (scope : List String)
    (tree : List Statement) :
    (closed before scope tree).filter (·.depth == depth) =
      (opened before scope tree).filter (·.depth == depth) := by
  induction tree using Forest.induct generalizing before scope with
  | nil => rw [closed_nil, opened_nil]
  | label name body pos rest ihBody ihRest =>
    rw [closed, opened_label, List.filter_append, List.filter_cons, List.filter_cons,
      List.filter_append, ← ihBody, ← ihRest]
    split
    · -- What stands in the label lies deeper.
      rename_i hdepth
      have hbody : (closed before (scope ++ [name]) body).filter (·.depth == depth) = [] := by
        rw [List.filter_eq_nil_iff]
        intro sp hsp hsame
        have hle := (spanWithin_of_mem_closed hsp).le_depth
        rw [List.length_append, List.length_singleton] at hle
        have hscope : scope.length = depth := by simpa [Span.depth] using hdepth
        rw [beq_iff_eq] at hsame
        omega
      rw [hbody, List.nil_append, List.nil_append]
    · rfl
  | loop count body pos rest ihBody ihRest =>
    rw [closed, opened_loop, List.filter_append, List.filter_append, ihBody, ihRest]
  | leaf s rest hleaf ih => rw [closed_leaf hleaf, opened_leaf hleaf, ih]

theorem spanOpens_of_apart {tree' : List Statement} (ha : SpanWithin before scope tree a)
    (hb : SpanWithin before' scope tree' b)
    (hend : (codeOf (before ++ tree)).length ≤ (codeOf before').length)
    (hout : ∀ n ∈ labelNames (nodes tree) ++ labelNames (nodes tree'), n ∉ scope)
    (hdis : (labelNames (nodes tree)).Disjoint (labelNames (nodes tree'))) : SpanOpens a b := by
  obtain ⟨hab, hba⟩ := ha.apart hb hout hdis
  have horder := ha.order
  have hstop := ha.stop
  have hstart := hb.start
  exact ⟨by omega, hba, .inr ⟨hab, by omega⟩⟩

theorem TreeOrder.append {as bs : List Span} (ha : TreeOrder as) (hb : TreeOrder bs)
    (h : ∀ a ∈ as, ∀ b ∈ bs, SpanOpens a b ∧ a.name ∉ b.scope) : TreeOrder (as ++ bs) := by
  refine ⟨List.pairwise_append.mpr ⟨ha.opens, hb.opens, fun a ha b hb => (h a ha b hb).1⟩, ?_⟩
  replace ha := ha.nested
  induction as with
  | nil => exact hb.nested
  | cons a as ih =>
    obtain ⟨hhead, hrest⟩ := ha
    obtain ⟨hout, hlater⟩ := List.forall_mem_cons.mp h
    refine ⟨List.pairwise_append.mpr ⟨hhead, ?_, ?_⟩, ih hlater hrest⟩
    · exact List.pairwise_of_forall_mem_list fun _ _ c hc hmem => absurd hmem (hout c hc).2
    · exact fun _ _ c hc hmem => absurd hmem (hout c hc).2

theorem opened_cons_treeOrder {s : Statement} (hn : (labelNames (nodes (s :: rest))).Nodup)
    (hout : ∀ n ∈ labelNames (nodes (s :: rest)), n ∉ scope)
    (hs : TreeOrder (opened before scope [s]))
    (hrest : TreeOrder (opened (before ++ [s]) scope rest)) :
    TreeOrder (opened before scope (s :: rest)) := by
  rw [← List.singleton_append, Forest.nodes_append, labelNames_append] at hn hout
  rw [opened_cons]
  refine hs.append hrest fun a ha b hb => ?_
  have ha := spanWithin_of_mem_opened ha
  have hb := spanWithin_of_mem_opened hb
  have hdis := List.disjoint_of_nodup_append hn
  exact ⟨spanOpens_of_apart ha hb le_rfl hout hdis, (ha.apart hb hout hdis).1⟩

theorem opened_treeOrder (hn : (labelNames (nodes tree)).Nodup)
    (hout : ∀ n ∈ labelNames (nodes tree), n ∉ scope) : TreeOrder (opened before scope tree) := by
  induction tree using Forest.induct generalizing before scope with
  | nil =>
    rw [opened_nil]
    exact ⟨.nil, trivial⟩
  | label name body pos rest ihBody ihRest =>
    have hnames := labelNames_nodes_label name body pos rest
    have hn' := hnames ▸ hn
    have hout' := hnames ▸ hout
    obtain ⟨hname, hnodup⟩ := List.nodup_cons.mp hn'
    have hbody : TreeOrder (opened before (scope ++ [name]) body) := by
      refine ihBody (List.Nodup.of_append_left hnodup) fun n hmem => ?_
      rw [List.mem_append, List.mem_singleton, not_or]
      exact ⟨hout' n (by simp [hmem]), fun e => hname (by simp [← e, hmem])⟩
    refine opened_cons_treeOrder hn hout ?_
      (ihRest (List.Nodup.of_append_right hnodup) fun n hmem => hout' n (by simp [hmem]))
    rw [opened_label, opened_nil, List.append_nil]
    have hin : ∀ b ∈ opened before (scope ++ [name]) body,
        SpanWithin before (scope ++ [name]) body b := fun b hb => spanWithin_of_mem_opened hb
    have hinside : ∀ b ∈ opened before (scope ++ [name]) body, name ∈ b.scope := by
      intro b hb
      obtain ⟨more, hmore, -⟩ := (hin b hb).scope
      simp [hmore]
    refine ⟨List.pairwise_cons.mpr ⟨fun b hb => ?_, hbody.opens⟩, ?_, hbody.nested⟩
    · have hle := (hin b hb).le_depth
      rw [List.length_append, List.length_singleton] at hle
      exact ⟨(hin b hb).start, hout' b.name (by simp [(hin b hb).name]), .inl ⟨hinside b hb, hle⟩⟩
    · exact List.pairwise_of_forall_mem_list fun b hb _ _ _ => hinside b hb
  | loop count body pos rest ihBody ihRest =>
    have hnames := labelNames_nodes_loop count body pos rest
    have hn' := hnames ▸ hn
    have hout' := hnames ▸ hout
    refine opened_cons_treeOrder hn hout ?_
      (ihRest (List.Nodup.of_append_right hn') fun n hmem => hout' n (by simp [hmem]))
    rw [opened_loop, opened_nil, List.append_nil]
    exact ihBody (List.Nodup.of_append_left hn') fun n hmem => hout' n (by simp [hmem])
  | leaf s rest hleaf ih =>
    have hn' := hn
    rw [← List.singleton_append, Forest.nodes_append, labelNames_append] at hn'
    refine opened_cons_treeOrder hn hout ?_
      (ih (List.Nodup.of_append_right hn') fun n hmem => hout n ?_)
    · rw [opened_leaf hleaf, opened_nil]
      exact ⟨.nil, trivial⟩
    · rw [← List.singleton_append, Forest.nodes_append, labelNames_append]
      simp [hmem]

end

/-! ## Sorting -/

/-- Whether sorting does not tell two spans apart. -/
def ties (a b : Span) : Bool := a.start == b.start && a.depth == b.depth

theorem ties_of_spanLe {a b : Span} (hab : spanLe a b = true) (hba : spanLe b a = true) :
    ties a b = true := by
  simp only [spanLe, ties, Bool.or_eq_true, Bool.and_eq_true, decide_eq_true_eq, beq_iff_eq] at *
  omega

/-- Sorted lists with the same ties in the same order are equal. -/
theorem eq_of_ties {l l' : List Span} (hl : l.Pairwise fun a b => spanLe a b = true)
    (hl' : l'.Pairwise fun a b => spanLe a b = true)
    (h : ∀ a, l.filter (ties a) = l'.filter (ties a)) : l = l' := by
  have hself : ∀ a, ties a a = true := by simp [ties]
  induction l generalizing l' with
  | nil =>
    cases l' with
    | nil => rfl
    | cons b l' =>
      have hb := h b
      rw [List.filter_cons_of_pos (hself b)] at hb
      cases hb
  | cons a l ih =>
    obtain ⟨hhead, hrest⟩ := List.pairwise_cons.mp hl
    have hmem : a ∈ l' := by
      have ha : a ∈ l'.filter (ties a) := by
        rw [← h a, List.filter_cons_of_pos (hself a)]
        exact List.mem_cons_self
      exact List.mem_of_mem_filter ha
    cases l' with
    | nil => cases hmem
    | cons b l' =>
      obtain ⟨hhead', hrest'⟩ := List.pairwise_cons.mp hl'
      have hmem' : b ∈ a :: l := by
        have hb : b ∈ (a :: l).filter (ties b) := by
          rw [h b, List.filter_cons_of_pos (hself b)]
          exact List.mem_cons_self
        exact List.mem_of_mem_filter hb
      have hab : ties a b = true := by
        rcases List.mem_cons.mp hmem with rfl | ha
        · exact hself a
        · rcases List.mem_cons.mp hmem' with rfl | hb
          · exact hself b
          · exact ties_of_spanLe (hhead b hb) (hhead' a ha)
      have ha := h a
      rw [List.filter_cons_of_pos (hself a), List.filter_cons_of_pos hab] at ha
      obtain ⟨rfl, -⟩ := List.cons.inj ha
      congr 1
      refine ih hrest hrest' fun c => ?_
      have hc := h c
      rw [List.filter_cons, List.filter_cons] at hc
      split at hc
      · exact List.tail_eq_of_cons_eq hc
      · exact hc

theorem filter_ties_mergeSort (a : Span) (l : List Span) :
    (l.mergeSort spanLe).filter (ties a) = l.filter (ties a) := by
  refine filter_mergeSort (List.pairwise_of_forall_mem_list fun b hb c hc => ?_)
  have hb := (List.mem_filter.mp hb).2
  have hc := (List.mem_filter.mp hc).2
  simp only [ties, Bool.and_eq_true, beq_iff_eq] at hb hc
  simp [spanLe, ← hb.1, ← hc.1, ← hb.2, ← hc.2]

theorem mergeSort_closed (before : List Statement) (scope : List String) (tree : List Statement) :
    (closed before scope tree).mergeSort spanLe = (opened before scope tree).mergeSort spanLe := by
  have hsorted := List.pairwise_mergeSort spanLe_trans spanLe_total
  refine eq_of_ties (hsorted _) (hsorted _) fun a => ?_
  have hdepth := congrArg (List.filter (a.start == ·.start)) (filter_depth a.depth before scope tree)
  rw [List.filter_filter, List.filter_filter] at hdepth
  rw [filter_ties_mergeSort, filter_ties_mergeSort]
  have hties : ties a = fun b => a.start == b.start && b.depth == a.depth := by
    funext b
    rw [ties, BEq.comm (a := a.depth)]
  rw [hties]
  exact hdepth

/-! ## Programs -/

/-- Of two labels that start at the same instruction, the one declared first does not lie deeper. -/
def InStep (spans : List Span) : Prop :=
  spans.Pairwise fun a b => a.start = b.start → a.depth ≤ b.depth

theorem TreeOrder.sorted_iff {spans : List Span} (h : TreeOrder spans) :
    (spans.Pairwise fun a b => spanLe a b = true) ↔ InStep spans := by
  constructor
  · intro hsorted
    refine hsorted.imp fun {a b} hle hstart => ?_
    simp only [spanLe, Bool.or_eq_true, Bool.and_eq_true, decide_eq_true_eq, beq_iff_eq] at hle
    omega
  · intro hstep
    refine h.opens.imp₂ (fun a b hopens hdepth => ?_) hstep
    have hstart := hopens.start
    simp only [spanLe, Bool.or_eq_true, Bool.and_eq_true, decide_eq_true_eq, beq_iff_eq]
    by_cases heq : a.start = b.start
    · exact .inr ⟨heq, hdepth heq⟩
    · exact .inl (by omega)

theorem eq_of_names {l l' : List Span} (hperm : l.Perm l') (hn : (l.map (·.name)).Nodup)
    (h : l.map (·.name) = l'.map (·.name)) : l = l' := by
  have hfind : ∀ l₁ : List Span, (∀ a ∈ l₁, a ∈ l) →
      (l₁.map (·.name)).map (fun n => l.find? (·.name == n)) = l₁.map some := by
    intro l₁ hin
    rw [List.map_map]
    exact List.map_congr_left fun a ha => find?_of_mem hn (hin a ha)
  have hl := hfind l fun _ ha => ha
  rw [h, hfind l' fun a ha => hperm.mem_iff.mpr ha] at hl
  exact ((List.map_inj_right fun _ _ => Option.some.inj).mp hl).symm

section
variable {tree : List Statement} {name : Option String} {p : Program}
  (h : link tree name = .ok p)
include h

theorem link_opened : p.spans = (opened [] [] tree).mergeSort spanLe := by
  rw [(link_spans h).1, mergeSort_closed]

theorem link_sorted : p.spans.Pairwise fun a b => spanLe a b = true := by
  rw [link_opened h]
  exact List.pairwise_mergeSort spanLe_trans spanLe_total _

theorem link_treeOrder : TreeOrder (opened [] [] tree) :=
  opened_treeOrder (link_spans h).2 (by simp)

theorem link_starts : p.spans.Pairwise fun a b => a.start ≤ b.start := by
  refine (link_sorted h).imp fun {a b} hle => ?_
  simp only [spanLe, Bool.or_eq_true, Bool.and_eq_true, decide_eq_true_eq, beq_iff_eq] at hle
  omega

theorem link_indices : ∀ sp ∈ p.spans, ((0 : Nat) : Int) ≤ sp.start ∧
    sp.start < (0 + (p.instructions.toList.length + 1) : Nat) := by
  intro sp hsp
  have hbounds := link_bounds h hsp
  unfold Program.length at hbounds
  rw [Array.length_toList]
  omega

theorem link_outer : p.spans.Pairwise fun a b => b.name ∉ a.scope := by
  have hnames : (p.spans.map (·.name)).Nodup := (names_spans h).nodup_iff.mpr (link_spans h).2
  have hperm : p.spans.Perm (opened [] [] tree) := by
    rw [link_opened h]
    exact List.mergeSort_perm _ _
  have hsym : (opened [] [] tree).Pairwise fun a b => SpanOpens a b ∨ SpanOpens b a :=
    (link_treeOrder h).opens.imp .inl
  have : Std.Symm fun a b => SpanOpens a b ∨ SpanOpens b a := ⟨fun _ _ => Or.symm⟩
  refine ((link_sorted h).and hnames.of_map).imp_of_mem fun {a b} ha hb ⟨hle, hne⟩ hmem => ?_
  rcases hsym.forall (hperm.mem_iff.mp ha) (hperm.mem_iff.mp hb) hne with hab | hba
  · exact hab.outside hmem
  · have hstart := hba.start
    rcases hba.lies with ⟨-, hdepth⟩ | ⟨hnot, -⟩
    · simp only [spanLe, Bool.or_eq_true, Bool.and_eq_true, decide_eq_true_eq, beq_iff_eq] at hle
      omega
    · exact hnot hmem

/-- The spans stand in the order of declaration if this is in step, and only then. -/
theorem link_opened_iff : p.spans = opened [] [] tree ↔ InStep (opened [] [] tree) := by
  rw [← (link_treeOrder h).sorted_iff]
  constructor
  · intro heq
    rw [← heq]
    exact link_sorted h
  · intro hsorted
    rw [link_opened h]
    exact List.mergeSort_of_pairwise hsorted

/-- Unless a nested label is empty, the order of declaration is in step. -/
theorem inStep_of_filled (hfilled : ∀ sp ∈ p.spans, sp.scope ≠ [] → sp.start < sp.stop) :
    InStep (opened [] [] tree) := by
  refine (link_treeOrder h).opens.imp_of_mem fun {a b} ha _ hopens hstart => ?_
  by_contra hdeep
  rcases hopens.lies with ⟨-, hdepth⟩ | ⟨-, hstop⟩
  · omega
  · have hmem : a ∈ p.spans := by
      rw [link_opened h]
      exact (List.mergeSort_perm _ _).mem_iff.mpr ha
    have hscope : a.scope ≠ [] := by
      intro hnil
      rw [Span.depth, hnil, List.length_nil] at hdeep
      omega
    have hlt := hfilled a hmem hscope
    omega

end

end Link

/-! ## Listings -/

/-- The span of a line that shows a label. -/
def Item.span? : Item → Option Span
  | .label s => some s
  | .code .. => none

/-- A line is that of an item. -/
def Item.Prints (e : Item) (l : String) : Prop := e.text = .ok l

theorem startingAt_append {spans : List Span} (hsorted : spans.Pairwise fun a b => a.start ≤ b.start)
    {i : Nat} (h : ∀ s ∈ spans, (i : Int) ≤ s.start) :
    Span.startingAt spans i ++ spans.filter (fun s => !(s.start == (i : Int))) = spans := by
  induction spans with
  | nil => rfl
  | cons a rest ih =>
    obtain ⟨hhead, hrest⟩ := List.pairwise_cons.mp hsorted
    obtain ⟨ha, hlater⟩ := List.forall_mem_cons.mp h
    by_cases hi : a.start = (i : Int)
    · have hsplit := ih hrest hlater
      rw [Span.startingAt] at hsplit ⊢
      rw [List.filter_cons_of_pos (by simpa using hi), List.filter_cons_of_neg (by simpa using hi),
        List.cons_append, hsplit]
    · have hbehind : ∀ s ∈ a :: rest, ¬s.start = (i : Int) := by
        intro s hs
        rcases List.mem_cons.mp hs with rfl | hs
        · exact hi
        · have hle := hhead s hs
          omega
      have hnone : Span.startingAt (a :: rest) i = [] := by
        rw [Span.startingAt, List.filter_eq_nil_iff]
        exact fun s hs => by simpa using hbehind s hs
      rw [hnone, List.nil_append, List.filter_eq_self]
      exact fun s hs => by simpa using hbehind s hs

theorem flatMap_startingAt {spans : List Span}
    (hsorted : spans.Pairwise fun a b => a.start ≤ b.start) (i n : Nat)
    (h : ∀ s ∈ spans, (i : Int) ≤ s.start ∧ s.start < (i + n : Nat)) :
    (List.range' i n).flatMap (Span.startingAt spans) = spans := by
  induction n generalizing i spans with
  | zero =>
    cases spans with
    | nil => rfl
    | cons s rest =>
      have hs := h s (by simp)
      omega
  | succ n ih =>
    have hlater : (List.range' (i + 1) n).flatMap (Span.startingAt spans) =
        (List.range' (i + 1) n).flatMap
          (Span.startingAt (spans.filter fun s => !(s.start == (i : Int)))) := by
      refine List.flatMap_congr fun k hk => ?_
      rw [Span.startingAt, Span.startingAt, List.filter_filter]
      refine List.filter_congr fun s _ => ?_
      have hik := (List.mem_range'_1.mp hk).1
      by_cases hs : s.start = (k : Int)
      · have hne : ¬ k = i := by omega
        simp [hs, hne]
      · simp [hs]
    have hbehind : ∀ s ∈ spans.filter (fun s => !(s.start == (i : Int))),
        ((i + 1 : Nat) : Int) ≤ s.start ∧ s.start < (i + 1 + n : Nat) := by
      intro s hs
      obtain ⟨hmem, hne⟩ := List.mem_filter.mp hs
      have hbound := h s hmem
      rw [Bool.not_eq_true', beq_eq_false_iff_ne] at hne
      omega
    rw [List.range'_succ, List.flatMap_cons, hlater,
      ih (hsorted.sublist List.filter_sublist) (i + 1) hbehind]
    exact startingAt_append hsorted fun s hs => (h s hs).1

namespace Program

section
variable (p : Program)

theorem spans_itemsFrom (i : Nat) (code : List Statement) :
    (p.itemsFrom i code).filterMap Item.span? =
      (List.range' i (code.length + 1)).flatMap (Span.startingAt p.spans) := by
  have hlabels : ∀ l : List Span, (l.map Item.label).filterMap Item.span? = l := by
    intro l
    rw [List.filterMap_map]
    exact List.filterMap_some
  induction code generalizing i with
  | nil => simp [itemsFrom, hlabels]
  | cons s rest ih =>
    rw [itemsFrom, List.filterMap_append, hlabels, List.filterMap_cons, ih, List.length_cons,
      List.range'_succ (n := rest.length + 1), List.flatMap_cons]
    rfl

theorem listingFrom_prints {i : Nat} {code : List Statement} {lines : List String}
    (h : p.listingFrom i code = .ok lines) :
    List.Forall₂ Item.Prints (p.itemsFrom i code) lines := by
  have hlabels : ∀ i, List.Forall₂ Item.Prints ((Span.startingAt p.spans i).map .label)
      (p.labelLines i) := by
    intro i
    rw [labelLines, Span.startingAt, List.forall₂_map_left_iff, List.forall₂_map_right_iff,
      List.forall₂_same]
    exact fun _ _ => rfl
  induction code generalizing i lines with
  | nil =>
    cases h
    exact hlabels i
  | cons s rest ih =>
    rw [listingFrom] at h
    cases htext : instructionText s with
    | error f =>
      rw [htext] at h
      cases h
    | ok text =>
      cases hmore : p.listingFrom (i + 1) rest with
      | error f =>
        rw [htext, hmore] at h
        cases h
      | ok more =>
        rw [htext, hmore] at h
        cases h
        refine List.rel_append (hlabels i) (.cons ?_ (ih hmore))
        rw [Item.Prints, Item.text, htext]
        rfl

end

end Program

namespace Link

/-- The spans stand in the order of the symbol table: each label before those nested in it, and these
before any other label. -/
structure SourceOrder (p : Program) : Prop where
  names : p.spans.map (·.name) = p.labels.map (·.1)
  outer : p.spans.Pairwise fun a b => b.name ∉ a.scope
  nested : Nested p.spans

/-- **Spans stand in source order if the labels are in step.** Sorting never puts a label behind one
that is nested in it. But it keeps the order of the symbol table, and so the nested labels together, if
and only if no label starts together with a deeper one that was declared before it, as it can only if
that one is empty. A listing shows the labels in the order of the spans. -/
theorem spans_in_source_order {tree : List Statement} {name : Option String} {p : Program}
    (h : link tree name = .ok p) :
    (opened [] [] tree).map (·.name) = p.labels.map (·.1) ∧ p.spans.Perm (opened [] [] tree) ∧
      (p.spans.Pairwise fun a b => b.name ∉ a.scope) ∧
      (SourceOrder p ↔ InStep (opened [] [] tree)) ∧
      (p.spans.map (·.name) = p.labels.map (·.1) ↔ InStep (opened [] [] tree)) ∧
      ((∀ sp ∈ p.spans, sp.scope ≠ [] → sp.start < sp.stop) → SourceOrder p) ∧
      ∀ text, p.listing = .ok text → ∃ lines, text = String.intercalate "\n" lines ∧
        List.Forall₂ Item.Prints (p.itemsFrom 0 p.instructions.toList) lines ∧
        (p.itemsFrom 0 p.instructions.toList).filterMap Item.span? = p.spans := by
  have hlabels : (opened [] [] tree).map (·.name) = p.labels.map (·.1) := by
    rw [link_labels h]
    exact names_places tree
  have hperm : p.spans.Perm (opened [] [] tree) := by
    rw [link_opened h]
    exact List.mergeSort_perm _ _
  have hstep : p.spans.map (·.name) = p.labels.map (·.1) → InStep (opened [] [] tree) := by
    intro hnames
    have hnodup : (p.spans.map (·.name)).Nodup := (names_spans h).nodup_iff.mpr (link_spans h).2
    exact (link_opened_iff h).mp (eq_of_names hperm hnodup (hnames.trans hlabels.symm))
  have horder : InStep (opened [] [] tree) → SourceOrder p := by
    intro hin
    have heq := (link_opened_iff h).mpr hin
    exact ⟨heq ▸ hlabels, link_outer h, heq ▸ (link_treeOrder h).nested⟩
  refine ⟨hlabels, hperm, link_outer h, ⟨fun ho => hstep ho.names, horder⟩,
    ⟨hstep, fun hin => (horder hin).names⟩, fun hfilled => horder (inStep_of_filled h hfilled),
    fun text htext => ?_⟩
  unfold Program.listing at htext
  cases hlines : p.listingFrom 0 p.instructions.toList with
  | error f =>
    rw [hlines] at htext
    cases htext
  | ok lines =>
    rw [hlines] at htext
    cases htext
    refine ⟨lines, rfl, p.listingFrom_prints hlines, ?_⟩
    rw [p.spans_itemsFrom]
    exact flatMap_startingAt (link_starts h) _ _ (link_indices h)

/-- An empty label in an empty label is in step with one behind the instructions. -/
theorem spans_in_source_order_nest : link nestTree none = .ok nestProgram ∧
    InStep (opened [] [] nestTree) ∧ SourceOrder nestProgram := by
  have hnames : nestProgram.spans.map (·.name) = nestProgram.labels.map (·.1) := rfl
  obtain ⟨-, -, -, horder, hstep, -⟩ := spans_in_source_order link_nest
  have hin := hstep.mp hnames
  exact ⟨link_nest, hin, horder.mpr hin⟩

/-- A label nested in an empty one, and a label behind both. -/
def emptyText : String := "LABEL a:\n LABEL b:\nLABEL c:"

def emptyTree : List Statement :=
  [.label "a" [.label "b" [] ⟨2, 8⟩] ⟨1, 7⟩, .label "c" [] ⟨3, 7⟩]

def emptyProgram : Program where
  labels := [("a", 0), ("b", 0), ("c", 0)]
  spans := [⟨"a", 0, 0, [], ⟨1, 7⟩⟩, ⟨"c", 0, 0, [], ⟨3, 7⟩⟩, ⟨"b", 0, 0, ["a"], ⟨2, 8⟩⟩]

set_option maxRecDepth 4000 in
theorem parse_empty : Source.parse emptyText none = .ok emptyTree := by
  cbv

/-- The last label is listed in front of the nested one, which then looks to be nested in it. -/
theorem empty_labels_out_of_order : compile emptyText none = .ok emptyProgram ∧
    emptyProgram.labels.map (·.1) = ["a", "b", "c"] ∧
    emptyProgram.spans.map (·.name) = ["a", "c", "b"] ∧
    emptyProgram.listing = .ok (String.intercalate "\n" ["a:", "c:", "  b:"]) := by
  have hlink : link emptyTree none = .ok emptyProgram := by cbv
  refine ⟨?_, rfl, rfl, by cbv⟩
  rw [compile, parse_empty]
  simp only [hlink]

end Link

end Ostinato
