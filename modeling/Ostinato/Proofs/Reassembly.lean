import Ostinato.Proofs.SpanOrder

/-!
# The disassembly reassembles

The text that comes out of a listing links, and to the same program up to source positions. A label may
have moved in the symbol table, since spans are listed by where they start and labels are declared in
program order; and all labels are at the top level now, however they were nested.
-/

namespace Ostinato

/-! ## Linking the tree -/

namespace Item

def code? : Item → Option Statement
  | .label _ => none
  | .code _ s => some s

def table (base : Nat) : List Item → List (String × Int)
  | [] => []
  | .label s :: es => (s.name, (base : Int)) :: table base es
  | .code _ _ :: es => table (base + 1) es

open Link (Defaults lower declarations settle)

/-- The tree of items has the instructions that were listed and the labels between them. -/
theorem lower_tree {es : List Item} (h : ∀ e ∈ es, e.Printable) (d : Defaults) (base : Nat) (n : Int) :
    (lower d base (tree n es)).map Statement.unplaced =
        (es.filterMap code?).map (·.untargeted.unplaced) ∧
      (declarations d base (tree n es)).map (fun d => (d.name, (d.start : Int))) =
        table base es := by
  induction es generalizing base n with
  | nil => simp [tree, lower, declarations, table]
  | cons e es ih =>
    obtain ⟨he, hes⟩ := List.forall_mem_cons.mp h
    cases e with
    | label s =>
      obtain ⟨hcode, htable⟩ := ih hes base (n + 1)
      have hskip : (label s :: es).filterMap code? = es.filterMap code? := rfl
      simp [tree, line, Source.Line.statement, lower, declarations, table, hskip, hcode, htable]
    | code i s =>
      obtain ⟨hcode, htable⟩ := ih hes (base + 1) (n + 1)
      cases s with
      | tempo | send | wait | jump =>
        simp [tree, line, Source.plainAt, Source.Line.statement, Statement.untargeted,
          Statement.placed, Statement.unplaced, lower, declarations, table, code?, hcode, htable]
      | _ => exact he.elim

theorem nodes_tree {es : List Item} (h : ∀ e ∈ es, e.Printable) (n : Int) :
    Forest.nodes (tree n es) = tree n es := by
  induction es generalizing n with
  | nil => rw [tree, Forest.nodes_nil]
  | cons e es ih =>
    obtain ⟨he, hes⟩ := List.forall_mem_cons.mp h
    cases e with
    | label s =>
      rw [tree, line, Source.Line.statement, Forest.nodes_label, Forest.nodes_nil, ih hes]
      rfl
    | code i s =>
      have hleaf : ((line (.code i s) n).statement []).isBlock = false := by
        cases s <;> first | rfl | exact he.elim
      rw [tree, Forest.nodes_leaf hleaf, ih hes]

theorem settingNames_tree {es : List Item} (h : ∀ e ∈ es, e.Printable) (n : Int) :
    settingNames (tree n es) = [] := by
  induction es generalizing n with
  | nil => rfl
  | cons e es ih =>
    obtain ⟨he, hes⟩ := List.forall_mem_cons.mp h
    have hnone : ((e.line n).statement []).settingName? = none := by
      cases e with
      | label s => rfl
      | code i s => cases s <;> first | rfl | exact he.elim
    rw [tree, settingNames_cons, hnone, ih hes]
    rfl

theorem labelNames_tree {es : List Item} (h : ∀ e ∈ es, e.Printable) :
    labelNames (tree 1 es) = (table 0 es).map (·.1) := by
  rw [← (lower_tree h {} 0 1).2, List.map_map]
  conv_lhs => rw [← nodes_tree h, ← Link.names_declarations]
  rfl

theorem jump_mem_tree {es : List Item} {n : Int} {j : Jump} (h : .jump j ∈ tree n es) :
    ∃ j₀, .jump j₀ ∈ es.filterMap code? ∧ j₀.label = j.label := by
  induction es generalizing n with
  | nil => cases h
  | cons e es ih =>
    rw [tree, List.mem_cons] at h
    rcases h with h | h
    · cases e with
      | label s => cases h
      | code i s =>
        cases s with
        | jump j₀ =>
          cases h
          exact ⟨j₀, by simp [code?], rfl⟩
        | _ => cases h
    · obtain ⟨j₀, hj, hlabel⟩ := ih h
      refine ⟨j₀, ?_, hlabel⟩
      obtain ⟨e', he', hcode⟩ := List.mem_filterMap.mp hj
      exact List.mem_filterMap.mpr ⟨e', List.mem_cons_of_mem e he', hcode⟩

/-- The tree of items links if its labels have names of their own and its jumps go to them. -/
theorem linkable_tree {es : List Item} (h : ∀ e ∈ es, e.Printable)
    (hnames : ((table 0 es).map (·.1)).Nodup)
    (hjumps : ∀ j, .jump j ∈ es.filterMap code? → j.label ∈ (table 0 es).map (·.1)) :
    Linkable (tree 1 es) := by
  have hnodes := nodes_tree h 1
  have hlabels := labelNames_tree h
  have hsettings := settingNames_tree h 1
  refine ⟨?_, fun j hj => ?_, fun before s after he => ?_, ?_⟩
  · rwa [hnodes, hlabels]
  · rw [hnodes] at hj ⊢
    obtain ⟨j₀, hj₀, hlabel⟩ := jump_mem_tree hj
    rw [hlabels, ← hlabel]
    exact hjumps j₀ hj₀
  · rw [hnodes] at he
    rw [he, settingNames_append, settingNames_cons] at hsettings
    simp [Statement.settingName?] at hsettings
  · rw [hnodes, hsettings]
    exact List.nodup_nil

end Item

/-! ## The labels of a listing -/

namespace Program

def entry (s : Span) : String × Int := (s.name, s.start)

section
variable (p : Program)

theorem code_itemsFrom (i : Nat) (code : List Statement) :
    (p.itemsFrom i code).filterMap Item.code? = code := by
  have hlabels : ∀ l : List Span, (l.map Item.label).filterMap Item.code? = [] := by
    intro l
    rw [List.filterMap_map, List.filterMap_eq_nil_iff]
    exact fun _ _ => rfl
  induction code generalizing i with
  | nil => exact hlabels _
  | cons s rest ih =>
    rw [itemsFrom, List.filterMap_append, hlabels, List.nil_append, List.filterMap_cons, ih]
    rfl

theorem table_labels (i : Nat) (es : List Item) :
    Item.table i ((Span.startingAt p.spans i).map .label ++ es) =
      (Span.startingAt p.spans i).map entry ++ Item.table i es := by
  have hgen : ∀ l : List Span, (∀ s ∈ l, s.start = (i : Int)) →
      Item.table i (l.map .label ++ es) = l.map entry ++ Item.table i es := by
    intro l
    induction l with
    | nil => intro _; rfl
    | cons s l ih =>
      intro h
      obtain ⟨hs, hl⟩ := List.forall_mem_cons.mp h
      rw [List.map_cons, List.cons_append, Item.table, ih hl, List.map_cons, entry, hs]
      rfl
  refine hgen _ fun s hs => ?_
  simpa using (List.mem_filter.mp hs).2

theorem table_itemsFrom (i : Nat) (code : List Statement) :
    Item.table i (p.itemsFrom i code) =
      ((List.range' i (code.length + 1)).flatMap (Span.startingAt p.spans)).map entry := by
  induction code generalizing i with
  | nil =>
    have hlast := table_labels p i []
    rw [List.append_nil] at hlast
    rw [itemsFrom, hlast]
    simp [Item.table]
  | cons s rest ih =>
    rw [itemsFrom, table_labels, Item.table, ih, List.length_cons,
      show List.range' i (rest.length + 1 + 1) = i :: List.range' (i + 1) (rest.length + 1) from
        List.range'_succ, List.flatMap_cons, List.map_append]

end

end Program

/-! ## Symbol tables -/

theorem lookup_perm {l₁ l₂ : List (String × Int)} (h : l₁.Perm l₂) (hn : (l₁.map (·.1)).Nodup)
    (name : String) : l₁.lookup name = l₂.lookup name := by
  induction h with
  | nil => rfl
  | cons x _ ih =>
    obtain ⟨-, hrest⟩ := List.nodup_cons.mp hn
    rw [List.lookup_cons, List.lookup_cons, ih hrest]
  | swap x y l =>
    obtain ⟨a, u⟩ := x
    obtain ⟨b, v⟩ := y
    have hne : b ≠ a := by
      intro he
      simp [he] at hn
    by_cases ha : name = a
    · have hb : (name == b) = false := beq_eq_false_iff_ne.mpr fun e => hne (e ▸ ha)
      simp [List.lookup_cons, ha, ha ▸ hb]
    · have ha' : (name == a) = false := beq_eq_false_iff_ne.mpr ha
      simp [List.lookup_cons, ha']
  | trans h₁ _ ih₁ ih₂ => exact (ih₁ hn).trans (ih₂ ((h₁.map _).nodup_iff.mp hn))

section
variable {tree : List Statement} {name : Option String} {p : Program}

theorem Link.entries_perm (h : link tree name = .ok p) : (p.spans.map Program.entry).Perm p.labels := by
  have hdeclared : declarations {} 0 tree = (places [] [] tree).filterMap Place.declaration? := by
    rw [← declarations_eq]
    simp [codeOf, lower, Defaults.after]
  have hplaces : ((places [] [] tree).filterMap Place.span?).map Program.entry = p.labels := by
    rw [(link_ok h).2.1, hdeclared, List.map_filterMap, List.map_filterMap]
    congr
    funext x
    simp only [Place.span?, Place.declaration?]
    split <;> rfl
  rw [(link_spans h).1, ← hplaces]
  exact ((List.mergeSort_perm _ _).trans (closed_perm [] [] tree)).map _

theorem Link.table_perm (h : link tree name = .ok p) :
    (Item.table 0 (p.itemsFrom 0 p.instructions.toList)).Perm p.labels := by
  rw [Program.table_itemsFrom, flatMap_startingAt (link_starts h) 0 _ (link_indices h)]
  exact entries_perm h

theorem Link.exists_link (htree : Forest.Each Statement.InRange tree) (h : Linkable tree)
    (source : Option String) : ∃ q, link tree source = .ok q := by
  have houtcome := Link.link_outcome htree source
  rw [problem?_eq_none_iff.mpr h] at houtcome
  cases hq : link tree source with
  | error e =>
    rw [hq] at houtcome
    obtain ⟨s, hs, -⟩ := houtcome
    cases hs
  | ok q => exact ⟨q, rfl⟩

end

/-! ## Programs without loops -/

def Program.Loopless (p : Program) : Prop :=
  ∀ j, .jump j ∈ p.instructions.toList → ∀ pos, j.label ≠ Link.loopName pos

/-- Two programs with the same instructions, up to their places in the source, and the same symbol
table, whatever its order. -/
structure Program.Agrees (p q : Program) : Prop where
  instructions : q.instructions.map Statement.unplaced = p.instructions.map Statement.unplaced
  labels : q.labels.Perm p.labels
  lookup : ∀ name, q.labels.lookup name = p.labels.lookup name
  jumpSites : q.jumpSites = p.jumpSites

theorem Link.sitesFrom_unplaced (i : Nat) (code : List Statement) :
    sitesFrom i (code.map Statement.unplaced) = sitesFrom i code := by
  rw [sitesFrom, List.zipIdx_map, List.filterMap_map, sitesFrom]
  congr
  funext x
  obtain ⟨s, k⟩ := x
  cases s <;> rfl

section
variable {text : String} {name : Option String} {p : Program}

theorem compile_legible (h : compile text name = .ok p) :
    (∀ s ∈ p.instructions.toList, s.Legible) ∧
      ∀ label ∈ p.labels.map (·.1), Source.isIdentifier label = true := by
  obtain ⟨tree, hparse, hlink⟩ := compile_ok h
  refine ⟨Link.link_legible (Source.parse_legible hparse) hlink, fun label hl => ?_⟩
  rw [Link.link_labels hlink] at hl
  exact Link.isIdentifier_of_mem_labelNames (Source.parse_inRange hparse) hl

theorem lookup_of_jump (h : compile text name = .ok p) (hloops : p.Loopless) {j : Jump}
    (hj : .jump j ∈ p.instructions.toList) : p.labels.lookup j.label = j.target := by
  rcases (compile_wellFormed h).labelled j hj with ⟨pos, hloop⟩ | hlookup
  · exact absurd hloop (hloops j hj pos)
  · exact hlookup

theorem mem_labels_of_jump (h : compile text name = .ok p) (hloops : p.Loopless) {j : Jump}
    (hj : .jump j ∈ p.instructions.toList) : j.label ∈ p.labels.map (·.1) := by
  obtain ⟨⟨t, ht, -⟩, -⟩ := (compile_wellFormed h).playable _ hj
  have hlookup := lookup_of_jump h hloops hj
  rw [ht, List.lookup_eq_some_iff] at hlookup
  obtain ⟨l₁, l₂, hl, -⟩ := hlookup
  rw [hl]
  simp

theorem compile_printable (h : compile text name = .ok p) (hloops : p.Loopless) :
    ∀ s ∈ p.instructions.toList, s.Printable := by
  intro s hs
  obtain ⟨hlegible, hlabels⟩ := compile_legible h
  have hplay := (compile_wellFormed h).playable s hs
  cases s with
  | tempo t => exact ⟨hplay, hlegible _ hs⟩
  | send s => exact ⟨hplay, hlegible _ hs⟩
  | wait w => exact ⟨hplay, hlegible _ hs⟩
  | jump j =>
    obtain ⟨⟨t, ht, h0, -⟩, hcount⟩ := hplay
    obtain ⟨k, rfl⟩ := Int.eq_ofNat_of_zero_le h0
    refine ⟨hlabels _ (mem_labels_of_jump h hloops hs), fun n hn => ?_, k, ht⟩
    exact ⟨hcount n hn, hlegible _ hs n hn⟩
  | _ => exact hplay.elim

theorem items_printable (hspans : ∀ s ∈ p.spans, Source.isIdentifier s.name = true)
    {code : List Statement} (hcode : ∀ s ∈ code, s.Printable) (i : Nat) :
    ∀ e ∈ p.itemsFrom i code, e.Printable := by
  have hlabels : ∀ i, ∀ e ∈ (Span.startingAt p.spans i).map Item.label, e.Printable := by
    intro i e he
    obtain ⟨s, hs, rfl⟩ := List.mem_map.mp he
    exact hspans s (List.mem_of_mem_filter hs)
  induction code generalizing i with
  | nil => exact hlabels i
  | cons s rest ih =>
    obtain ⟨hs, hrest⟩ := List.forall_mem_cons.mp hcode
    exact List.forall_mem_append.mpr
      ⟨hlabels i, List.forall_mem_cons.mpr ⟨hs, ih hrest (i + 1)⟩⟩

/-- An instruction that lost its target gets it back from a symbol table with the same labels. -/
theorem settle_untargeted {declared : List Link.Declaration} {s : Statement} (hs : s.Printable)
    (hjump : ∀ j, s = .jump j → Link.start? declared j.label = j.target) :
    Link.settle declared s.untargeted.unplaced = s.unplaced := by
  cases s with
  | jump j =>
    have htarget := hjump j rfl
    simp [Statement.untargeted, Statement.unplaced, Statement.placed, Link.settle, htarget]
  | tempo | send | wait => rfl
  | _ => exact hs.elim

theorem unplaced_settle (declared : List Link.Declaration) (s : Statement) :
    (Link.settle declared s).unplaced = Link.settle declared s.unplaced := by
  cases s <;> rfl

theorem spans_named (h : compile text name = .ok p) :
    ∀ s ∈ p.spans, Source.isIdentifier s.name = true := by
  obtain ⟨tree, -, hlink⟩ := compile_ok h
  intro s hs
  have hentry := (Link.entries_perm hlink).mem_iff.mp (List.mem_map_of_mem hs)
  exact (compile_legible h).2 _ (List.mem_map_of_mem hentry)

theorem items_labels (h : compile text name = .ok p) :
    (Item.table 0 (p.itemsFrom 0 p.instructions.toList)).Perm p.labels ∧
      ((Item.table 0 (p.itemsFrom 0 p.instructions.toList)).map (·.1)).Nodup := by
  obtain ⟨tree, -, hlink⟩ := compile_ok h
  have htable := Link.table_perm hlink
  refine ⟨htable, (htable.map (·.1)).nodup_iff.mpr ?_⟩
  rw [Link.link_labels hlink]
  exact (Link.link_spans hlink).2

theorem items_linkable (h : compile text name = .ok p) (hloops : p.Loopless) :
    Linkable (Item.tree 1 (p.itemsFrom 0 p.instructions.toList)) := by
  obtain ⟨htable, hnames⟩ := items_labels h
  refine Item.linkable_tree (items_printable (spans_named h) (compile_printable h hloops) 0) hnames
    fun j hj => ?_
  rw [p.code_itemsFrom 0 p.instructions.toList] at hj
  exact (htable.map (·.1)).mem_iff.mpr (mem_labels_of_jump h hloops hj)

/-- And when it is linked, that gives the program again. -/
theorem items_agree (h : compile text name = .ok p) (hloops : p.Loopless) {q : Program}
    {source : Option String}
    (hq : link (Item.tree 1 (p.itemsFrom 0 p.instructions.toList)) source = .ok q) :
    p.Agrees q := by
  have hcode := compile_printable h hloops
  have hitems := items_printable (spans_named h) hcode 0
  obtain ⟨htable, hnames⟩ := items_labels h
  have hcodeItems := p.code_itemsFrom 0 p.instructions.toList
  generalize p.itemsFrom 0 p.instructions.toList = es at hq hitems htable hnames hcodeItems
  obtain ⟨hlower, hdeclared⟩ := Item.lower_tree hitems {} 0 1
  obtain ⟨hinstructions, hlabels, hsites, -⟩ := Link.link_ok hq
  rw [hdeclared] at hlabels
  have hperm : q.labels.Perm p.labels := hlabels ▸ htable
  have hlookup := lookup_perm hperm (hlabels ▸ hnames)
  have hsame : q.instructions.toList.map Statement.unplaced =
      p.instructions.toList.map Statement.unplaced := by
    have hcomm : Statement.unplaced ∘ Link.settle (Link.declarations {} 0 (Item.tree 1 es)) =
        Link.settle (Link.declarations {} 0 (Item.tree 1 es)) ∘ Statement.unplaced :=
      funext fun s => unplaced_settle _ s
    rw [hinstructions, List.map_map, hcomm, ← List.map_map, hlower, hcodeItems, List.map_map]
    refine List.map_congr_left fun s hs => settle_untargeted (hcode s hs) fun j hj => ?_
    subst hj
    rw [← lookup_of_jump h hloops hs, ← hlookup, hlabels, ← hdeclared, Link.lookup_labels]
  refine ⟨?_, hperm, hlookup, ?_⟩
  · rw [← Array.toList_inj, Array.toList_map, Array.toList_map, hsame]
  · rw [hsites, ← Link.sitesFrom_unplaced, hsame, Link.sitesFrom_unplaced,
      (compile_wellFormed h).sites]

/-- **The disassembly reassembles.** The listing of a compiled program without loops, written as source
text, compiles to a program that has the same instructions up to their places in the source, the same
symbol table and the same jump sites. -/
theorem compile_reassembled (h : compile text name = .ok p) (hloops : p.Loopless)
    (source : Option String) :
    ∃ listing q, p.listing = .ok listing ∧ compile (reassembled listing) source = .ok q ∧
      p.Agrees q := by
  obtain ⟨lines, hlines, hshows⟩ := p.listingFrom_ok (spans_named h) (compile_printable h hloops) 0
  have hlisting : p.listing = .ok (String.intercalate "\n" lines) := by
    rw [Program.listing, hlines]
    rfl
  have hparse := parse_reassembled hshows source
  obtain ⟨q, hq⟩ := Link.exists_link (Source.parse_inRange hparse) (items_linkable h hloops) source
  have hcompile : compile (reassembled (String.intercalate "\n" lines)) source = .ok q := by
    rw [compile, hparse]
    simp only [hq]
  exact ⟨_, q, hlisting, hcompile, items_agree h hloops hq⟩

end

/-- Three labels at one index, of which the inner one is listed last, and a label behind the last
instruction. -/
def listedText : String :=
  "LABEL a:\n LABEL b:\nLABEL c:\n SEND NOTEON 2, c-1, 90, OUTPUT = x\n WAIT 2 b\n JUMP b 3\nLABEL d:"

def listedTree : List Statement :=
  [.label "a" [.label "b" [] ⟨2, 8⟩] ⟨1, 7⟩,
    .label "c"
      [.send ⟨true, 1, 0, 90, some "x", ⟨4, 2⟩⟩, .wait ⟨2, .beats, ⟨5, 2⟩⟩,
        .jump ⟨"b", some 3, none, ⟨6, 2⟩⟩] ⟨3, 7⟩,
    .label "d" [] ⟨7, 7⟩]

def listedProgram : Program where
  instructions := #[
    .send ⟨true, 1, 0, 90, some "x", ⟨4, 2⟩⟩, .wait ⟨2, .beats, ⟨5, 2⟩⟩,
    .jump ⟨"b", some 3, some 0, ⟨6, 2⟩⟩]
  labels := [("a", 0), ("b", 0), ("c", 0), ("d", 3)]
  spans := [
    ⟨"a", 0, 0, [], ⟨1, 7⟩⟩, ⟨"c", 0, 3, [], ⟨3, 7⟩⟩, ⟨"b", 0, 0, ["a"], ⟨2, 8⟩⟩,
    ⟨"d", 3, 3, [], ⟨7, 7⟩⟩]
  jumpSites := [⟨2, "b", 0, some 3⟩]

set_option maxRecDepth 4000 in
theorem parse_listed : Source.parse listedText none = .ok listedTree := by
  cbv

theorem link_listed : link listedTree none = .ok listedProgram := by
  cbv

theorem compile_listed : compile listedText none = .ok listedProgram := by
  rw [compile, parse_listed]
  simp only [link_listed]

theorem listedProgram_loopless : listedProgram.Loopless := by
  intro j hj pos hloop
  have hb : j.label = "b" := by
    simp only [listedProgram, List.mem_cons, reduceCtorEq, List.not_mem_nil, or_false, false_or,
      Statement.jump.injEq] at hj
    rw [hj]
  have hchars := congrArg String.toList (hb.symm.trans hloop)
  simp [Link.loopName] at hchars

theorem compile_reassembled_listed : compile listedText none = .ok listedProgram ∧
    listedProgram.Loopless ∧
    ∃ listing q, listedProgram.listing = .ok listing ∧
      compile (reassembled listing) none = .ok q ∧ listedProgram.Agrees q :=
  ⟨compile_listed, listedProgram_loopless,
    compile_reassembled compile_listed listedProgram_loopless none⟩

example : listedProgram.listing = .ok (String.intercalate "\n"
    ["a:", "c:", "  b:", "    0  SEND NOTEON 1r, c-1, 90, OUTPUT = x", "    1  WAIT 2 beats",
      "    2  JUMP b 3  -> 0", "d:"]) := by
  cbv

end Ostinato
