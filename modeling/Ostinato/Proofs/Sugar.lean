import Ostinato.Proofs.Linkable

/-!
# Press lines and settings are sugar

`desugar` removes the settings of a tree and writes each press line out as notes, a wait and the
releases, with what it leaves out taken from the program's presets. `link_desugar` says that nothing
is lost: the tree without sugar links to the same instructions, labels, spans and jump sites.

The two trees are walked side by side, in states that agree but for the settings (`Walk.desugar`).
A press line reads the defaults of the moment. They are the final ones, because a press line ends
the header (`Walk.defaults`), and the final ones are those of the settings in the tree
(`Walk.defaults_eq`).
-/

namespace Ostinato

open Forest (nodes)

/-! ## Presets -/

/-- What press lines use for the parts they leave out. -/
structure Presets where
  velocity : Int := 90
  channel : Int := 0
  duration : Wait := { amount := 1 }
  output : Option String := none

def Statement.setting? : Statement → Option Setting
  | .setting s => some s
  | _ => none

def settingsOf (l : List Statement) : List Setting := l.filterMap Statement.setting?

def settingValue? (settings : List Setting) (name : String) : Option SettingValue :=
  (settings.find? (·.name == name)).map (·.value)

def Presets.of (settings : List Setting) : Presets where
  velocity :=
    match settingValue? settings "velocity" with
    | some (.number v) => v
    | _ => 90
  channel :=
    match settingValue? settings "channel" with
    | some (.number c) => c
    | _ => 0
  duration :=
    match settingValue? settings "duration" with
    | some (.duration w) => w
    | _ => { amount := 1 }
  output :=
    match settingValue? settings "output" with
    | some (.name o) => some o
    | _ => none

/-! ## Trees without sugar -/

def Chord.rising (c : Chord) : List Int := c.tones.mergeSort

/-- A press line written out. -/
def Presets.expand (d : Presets) (p : Play) : List Statement :=
  let pitches := (p.chords.flatMap Chord.rising).eraseDups
  let channel := p.channel.getD d.channel
  let velocity := p.velocity.getD d.velocity
  let output := p.output.or d.output
  pitches.map (fun n => .send ⟨true, channel, n, velocity, output, p.pos⟩) ++
    .wait { p.duration.getD d.duration with pos := p.pos } ::
      pitches.map fun n => .send ⟨false, channel, n, 0, output, p.pos⟩

def Presets.desugar (d : Presets) : List Statement → List Statement
  | [] => []
  | .setting _ :: rest => d.desugar rest
  | .play p :: rest => d.expand p ++ d.desugar rest
  | .label name body pos :: rest => .label name (d.desugar body) pos :: d.desugar rest
  | .loop count body pos :: rest => .loop count (d.desugar body) pos :: d.desugar rest
  | s :: rest => s :: d.desugar rest

theorem Chord.rising_eq (c : Chord) : c.rising = c.tones := by
  refine List.mergeSort_of_pairwise ?_
  unfold Chord.tones Chord.notes
  split
  · rename_i notes h
    split at h
    · cases h
    · rename_i steps hsteps
      dsimp only at h
      split at h
      · cases h
        unfold ChordKind.intervals? at hsteps
        split at hsteps <;> cases hsteps <;> simp
      · split at h <;> cases h
  · exact .nil

namespace Link

/-- Collecting what is new is dropping what was there and the repetitions. -/
theorem addNew_eq (seen l : List Int) :
    addNew seen l = seen ++ (l.filter (!seen.contains ·)).eraseDups := by
  induction l generalizing seen with
  | nil => simp [addNew]
  | cons n rest ih =>
    by_cases hn : seen.contains n = true
    · rw [addNew, if_pos hn, ih, List.filter_cons_of_neg (by rw [hn]; simp)]
    · have hfilter : (rest.filter (!seen.contains ·)).filter (!· == n) =
          rest.filter (!(seen ++ [n]).contains ·) := by
        rw [List.filter_filter]
        refine List.filter_congr fun k _ => ?_
        by_cases hk : k = n <;> simp [hk]
      rw [addNew, if_neg hn, ih, List.filter_cons_of_pos (by simpa using hn), List.eraseDups_cons,
        hfilter, List.append_assoc, List.singleton_append]

/-! ## Defaults and presets -/

def Defaults.of (settings : List Setting) : Defaults where
  velocity := (settingValue? settings "velocity").getD (.number 90)
  channel := (settingValue? settings "channel").getD (.number 0)
  duration := (settingValue? settings "duration").getD (.duration { amount := 1 })
  output := (settingValue? settings "output").getD .absent

theorem settingValue?_append (settings more : List Setting) (name : String) :
    settingValue? (settings ++ more) name =
      (settingValue? settings name).or (settingValue? more name) := by
  rw [settingValue?, List.find?_append, settingValue?, settingValue?]
  cases settings.find? (·.name == name) <;> rfl

theorem State.set_fresh {st st' : State} {s : Setting} (h : st.set s = .ok st') :
    settingValue? st.settings s.name = none := by
  rw [settingValue?, (State.set_eq_ok.mp h).1]
  rfl

/-- A setting of a new name changes the defaults made by the others in its own place only. -/
theorem Defaults.of_concat {settings : List Setting} {s : Setting}
    (h : settingValue? settings s.name = none) :
    Defaults.of (settings ++ [s]) = (Defaults.of settings).set s := by
  have hself : ∀ name, settingValue? [s] name = if s.name = name then some s.value else none := by
    intro name
    by_cases hn : s.name = name <;> simp [settingValue?, hn]
  unfold Defaults.set
  split <;> rename_i hname <;> simp_all [Defaults.of, settingValue?_append]

theorem settingsOf_cons (s : Statement) (l : List Statement) :
    settingsOf (s :: l) = s.setting?.toList ++ settingsOf l := by
  unfold settingsOf
  cases hs : s.setting? <;> simp [hs]

theorem settingsOf_append (l l' : List Statement) :
    settingsOf (l ++ l') = settingsOf l ++ settingsOf l' :=
  List.filterMap_append

/-- The walk collects the settings, and the defaults are those that they make. -/
theorem Walk.defaults_eq {scope : List String} {st st' : State} {tree : List Statement}
    (h : Walk scope st tree st') (hst : st.defaults = Defaults.of st.settings) :
    st'.settings = st.settings ++ settingsOf (nodes tree) ∧
      st'.defaults = Defaults.of st'.settings := by
  induction h with
  | nil => simpa [settingsOf] using hst
  | @setting _ st st₁ _ s rest hset _ ih =>
    obtain ⟨-, -, hd, -, hs, -⟩ := State.set_ok hset
    obtain ⟨hsettings, hdefaults⟩ := ih (by
      rw [hd, hs, hst, Defaults.of_concat (State.set_fresh hset)])
    refine ⟨?_, hdefaults⟩
    rw [hsettings, hs, Forest.nodes_leaf rfl, settingsOf_cons, List.append_assoc]
    rfl
  | label _ _ _ ihBody ihRest =>
    obtain ⟨hs, hd⟩ := ihBody hst
    obtain ⟨hs', hd'⟩ := ihRest hd
    refine ⟨?_, hd'⟩
    rw [hs', Forest.nodes_label, settingsOf_cons, settingsOf_append, State.closeLabel, hs,
      List.append_assoc]
    rfl
  | @loop _ st st₁ _ count _ _ pos _ _ ihBody ihRest =>
    obtain ⟨hs, hd⟩ := ihBody hst
    obtain ⟨hkeep, -, -, -, hclose⟩ := st₁.closeLoop_frame count st.code.size pos
    obtain ⟨hs', hd'⟩ := ihRest (by rw [hkeep, hclose, hd])
    refine ⟨?_, hd'⟩
    rw [hs', hclose, Forest.nodes_loop, settingsOf_cons, settingsOf_append, hs, List.append_assoc]
    rfl
  | play _ _ ih =>
    rw [Forest.nodes_leaf rfl, settingsOf_cons]
    exact ih hst
  | tempo _ ih =>
    rw [Forest.nodes_leaf rfl, settingsOf_cons]
    exact ih hst
  | @plain _ _ _ s _ hs _ ih =>
    have hleaf : s.isBlock = false ∧ s.setting? = none := by
      cases s <;> simp_all [isPlainCode, Statement.isBlock, Statement.setting?]
    rw [Forest.nodes_leaf hleaf.1, settingsOf_cons, hleaf.2]
    exact ih hst

end Link

/-- Presets that say the same as some defaults. -/
structure Presets.Matches (P : Presets) (d : Link.Defaults) : Prop where
  velocity : d.velocity = .number P.velocity
  channel : d.channel = .number P.channel
  duration : d.duration = .duration P.duration
  output : Link.outputName? d.output = some P.output

namespace Link

/-- Settings in range make defaults that presets can say. -/
theorem presets_matches {settings : List Setting} (h : ∀ s ∈ settings, s.InRange) :
    (Presets.of settings).Matches (Defaults.of settings) := by
  have hfind : ∀ {name v}, settingValue? settings name = some v →
      ∃ s : Setting, s.InRange ∧ s.name = name ∧ s.value = v := by
    intro name v hv
    obtain ⟨s, hs, rfl⟩ := Option.map_eq_some_iff.mp hv
    exact ⟨s, h s (List.mem_of_find?_eq_some hs), by simpa using List.find?_some hs, rfl⟩
  constructor
  · cases hv : settingValue? settings "velocity" with
    | none => simp [Defaults.of, Presets.of, hv]
    | some v =>
      obtain ⟨s, hs, hn, rfl⟩ := hfind hv
      cases hs <;> simp_all [Defaults.of, Presets.of]
  · cases hv : settingValue? settings "channel" with
    | none => simp [Defaults.of, Presets.of, hv]
    | some v =>
      obtain ⟨s, hs, hn, rfl⟩ := hfind hv
      cases hs <;> simp_all [Defaults.of, Presets.of]
  · cases hv : settingValue? settings "duration" with
    | none => simp [Defaults.of, Presets.of, hv]
    | some v =>
      obtain ⟨s, hs, hn, rfl⟩ := hfind hv
      cases hs <;> simp_all [Defaults.of, Presets.of]
  · cases hv : settingValue? settings "output" with
    | none => simp [Defaults.of, Presets.of, hv, outputName?]
    | some v =>
      obtain ⟨s, hs, hn, rfl⟩ := hfind hv
      cases hs <;> simp_all [Defaults.of, Presets.of, outputName?]

theorem press_eq_expand {P : Presets} {d : Defaults} (hP : P.Matches d) {p : Play}
    {code : List Statement} (h : press d p = .ok code) : code = P.expand p := by
  obtain ⟨notes, w, hnotes, hw, rfl⟩ := press_eq_ok.mp h
  have hpitches : notes = (p.chords.flatMap Chord.rising).eraseDups := by
    rw [(pitches_eq_ok.mp hnotes).2, addNew_eq, funext Chord.rising_eq]
    simp
  have hchannel : (p.channel.map .number).getD d.channel =
      .number (p.channel.getD P.channel) := by
    cases hc : p.channel <;> simp [hP.channel]
  have hvelocity : (p.velocity.map .number).getD d.velocity =
      .number (p.velocity.getD P.velocity) := by
    cases hv : p.velocity <;> simp [hP.velocity]
  have houtput : outputName? ((p.output.map .name).getD d.output) =
      some (p.output.or P.output) := by
    cases ho : p.output with
    | none => simpa using hP.output
    | some o => simp [outputName?]
  have hwait : w = p.duration.getD P.duration := by
    cases hd : p.duration <;> simp_all [pressWait?, hP.duration]
  have hnote : ∀ (on : Bool) (c v : Int),
      note on (.number c) (.number v) ((p.output.map .name).getD d.output) p.pos =
        fun n => .send ⟨on, c, n, v, p.output.or P.output, p.pos⟩ := by
    intro on c v
    funext n
    simp only [note, houtput]
  rw [hchannel, hvelocity, hnote, hnote, hwait, hpitches, Presets.expand]

/-! ## The two walks -/

/-- States that agree but for the settings and the header. -/
structure Same (st st₂ : State) : Prop where
  code : st₂.code = st.code
  declared : st₂.declared = st.declared
  spans : st₂.spans = st.spans

namespace Same
variable {st st₂ st₃ : State}

theorem trans (h : Same st st₂) (h' : Same st₂ st₃) : Same st st₃ :=
  ⟨h'.code.trans h.code, h'.declared.trans h.declared, h'.spans.trans h.spans⟩

theorem declare (h : Same st st₂) (name : String) (pos : Pos) :
    Same (st.declare name pos) (st₂.declare name pos) :=
  ⟨h.code, by simp [State.declare, h.declared, h.code], h.spans⟩

theorem closeLabel (h : Same st st₂) (name : String) (start : Nat) (scope : List String)
    (pos : Pos) : Same (st.closeLabel name start scope pos) (st₂.closeLabel name start scope pos) :=
  ⟨h.code, h.declared, by simp [State.closeLabel, h.spans, h.code]⟩

theorem leaveHeader (h : Same st st₂) : Same st.leaveHeader st₂.leaveHeader :=
  ⟨h.code, h.declared, h.spans⟩

theorem push (h : Same st st₂) (s : Statement) : Same (st.push s) (st₂.push s) :=
  ⟨by simp [State.push, h.code], h.declared, h.spans⟩

theorem append (h : Same st st₂) (code : List Statement) :
    Same (st.append code) (st₂.append code) :=
  ⟨by simp [State.append, h.code], h.declared, h.spans⟩

theorem closeLoop (h : Same st st₂) (count : Option Int) (start : Nat) (pos : Pos) :
    Same (st.closeLoop count start pos) (st₂.closeLoop count start pos) := by
  unfold State.closeLoop
  split
  · exact h
  · exact h.push _

end Same

theorem emitAll_code {scope : List String} {code rest : List Statement}
    (h : ∀ s ∈ code, isPlainCode s = true) (st : State) :
    ∃ st', emitAll scope st (code ++ rest) = emitAll scope st' rest ∧ Same (st.append code) st' := by
  induction code generalizing st with
  | nil => exact ⟨st, rfl, by simp [State.append], rfl, rfl⟩
  | cons s code ih =>
    obtain ⟨st', hst', hsame⟩ := ih (fun t ht => h t (by simp [ht])) (st.leaveHeader.push s)
    refine ⟨st', ?_, ?_, hsame.declared, hsame.spans⟩
    · rw [List.cons_append, emitAll_cons, emit_plain (h s (by simp))]
      exact hst'
    · rw [hsame.code]
      simp [State.append, State.push, State.leaveHeader]

theorem isPlainCode_expand {P : Presets} {p : Play} :
    ∀ s ∈ P.expand p, isPlainCode s = true := by
  intro s hs
  simp only [Presets.expand, List.mem_append, List.mem_cons, List.mem_map] at hs
  obtain ⟨n, -, rfl⟩ | rfl | ⟨n, -, rfl⟩ := hs <;> rfl

/-- The tree without sugar is walked as the tree is, if the presets are the defaults at its end. -/
theorem Walk.desugar {scope : List String} {st st' : State} {tree : List Statement}
    (h : Walk scope st tree st') {P : Presets} (hP : P.Matches st'.defaults) {st₂ : State}
    (hs : Same st st₂) :
    ∃ st₂', emitAll scope st₂ (P.desugar tree) = .ok st₂' ∧ Same st' st₂' := by
  induction h generalizing st₂ with
  | nil => exact ⟨st₂, by simp [Presets.desugar, emitAll], hs⟩
  | setting hset _ ih =>
    obtain ⟨hc, hd, -, hsp, -⟩ := State.set_ok hset
    rw [Presets.desugar]
    exact ih hP ⟨by rw [hs.code, hc], by rw [hs.declared, hd], by rw [hs.spans, hsp]⟩
  | @label scope st st₁ _ name body rest pos hnew hbody hrest ihBody ihRest =>
    -- Settings are over, so the defaults in the body are those at the end.
    have hdefaults := (hrest.defaults (hbody.defaults rfl).2).1
    obtain ⟨m, hm, hsame⟩ := ihBody (hdefaults ▸ hP) (hs.declare name pos)
    obtain ⟨m', hm', hsame'⟩ := ihRest hP (hsame.closeLabel name st.code.size scope pos)
    refine ⟨m', ?_, hsame'⟩
    rw [Presets.desugar, emitAll_cons, emit_label (by rw [hs.declared]; exact hnew), hm, hs.code]
    exact hm'
  | @loop scope st st₁ _ count body rest pos hbody hrest ihBody ihRest =>
    obtain ⟨hkeep, hheader, -⟩ := st₁.closeLoop_frame count st.code.size pos
    have hdefaults := (hrest.defaults (hheader.trans (hbody.defaults rfl).2)).1.trans hkeep
    obtain ⟨m, hm, hsame⟩ := ihBody (hdefaults ▸ hP) hs.leaveHeader
    obtain ⟨m', hm', hsame'⟩ := ihRest hP (hsame.closeLoop count st.code.size pos)
    refine ⟨m', ?_, hsame'⟩
    rw [Presets.desugar, emitAll_cons, emit_loop, hm, hs.code]
    exact hm'
  | @play scope st _ p code rest hp hrest ih =>
    have hdefaults := (hrest.defaults rfl).1
    obtain rfl : code = P.expand p := press_eq_expand (hdefaults ▸ hP) hp
    obtain ⟨m, hm, hsame⟩ : ∃ m, emitAll scope st₂ (P.expand p ++ P.desugar rest) =
        emitAll scope m (P.desugar rest) ∧ Same (st₂.append (P.expand p)) m :=
      emitAll_code isPlainCode_expand st₂
    obtain ⟨m', hm', hsame'⟩ := ih hP ((hs.append (P.expand p)).trans hsame)
    exact ⟨m', by rw [Presets.desugar, hm, hm'], hsame'⟩
  | @tempo scope st _ t rest _ ih =>
    obtain ⟨m, hm, hsame⟩ := ih hP (hs.push (.tempo t))
    refine ⟨m, ?_, hsame⟩
    rw [Presets.desugar, emitAll_cons, emit]
    · exact hm
    all_goals simp
  | @plain scope st _ s rest hplain _ ih =>
    obtain ⟨m, hm, hsame⟩ := ih hP (hs.leaveHeader.push s)
    have hkeep : P.desugar (s :: rest) = s :: P.desugar rest := by
      cases s <;> simp_all [isPlainCode, Presets.desugar]
    refine ⟨m, ?_, hsame⟩
    rw [hkeep, emitAll_cons, emit_plain hplain]
    exact hm

end Link

/-- **Press lines and settings are sugar.** The tree of a text that links still links without them,
and to the same program. -/
theorem link_desugar {text : String} {name : Option String} {tree : List Statement}
    (h : Source.parse text name = .ok tree) {source : Option String} {p : Program}
    (hp : link tree source = .ok p) :
    ∃ q, link ((Presets.of (settingsOf (nodes tree))).desugar tree) source = .ok q ∧
      q.instructions = p.instructions ∧ q.labels = p.labels ∧ q.spans = p.spans ∧
      q.jumpSites = p.jumpSites := by
  have hrange : ∀ s ∈ settingsOf (nodes tree), s.InRange := by
    intro s hs
    obtain ⟨t, ht, he⟩ := List.mem_filterMap.mp hs
    cases t with
    | setting s' =>
      cases he
      exact Source.parse_inRange h _ ht
    | _ => cases he
  unfold link Link.program at hp
  cases he : Link.emitAll [] {} tree with
  | error e => simp [he] at hp
  | ok st =>
    have hwalk := Link.walk_of_emitAll he
    obtain ⟨hsettings, hdefaults⟩ := hwalk.defaults_eq rfl
    have hmatches : (Presets.of (settingsOf (nodes tree))).Matches st.defaults := by
      rw [hdefaults, hsettings]
      exact Link.presets_matches hrange
    have hstart : Link.Same {} {} := ⟨rfl, rfl, rfl⟩
    obtain ⟨st₂, hst₂, hsame⟩ := hwalk.desugar hmatches hstart
    cases hr : Link.resolve st.declared 0 st.code.toList with
    | error e => simp [he, hr] at hp
    | ok out =>
      simp only [he, hr, Except.ok.injEq] at hp
      subst hp
      unfold link Link.program
      simp only [hst₂, hsame.declared, hsame.code, hsame.spans, hr]
      exact ⟨_, rfl, rfl, rfl, rfl, rfl⟩

/-- A channel for all press lines, and chords that share a note. -/
def pressText : String := "DEFAULT CHANNEL 2\nLABEL a:\n PLAY c4:M, e4 FOR 2 b"

def pressTree : List Statement :=
  [.setting ⟨"channel", .number 1, ⟨1, 1⟩⟩,
    .label "a"
      [.play {
        chords := [⟨60, .major⟩, ⟨64, .raw⟩], duration := some ⟨2, .beats, ⟨3, 16⟩⟩, pos := ⟨3, 2⟩ }]
      ⟨2, 7⟩]

def pressProgram : Program where
  instructions := #[
    .send ⟨true, 1, 60, 90, none, ⟨3, 2⟩⟩, .send ⟨true, 1, 64, 90, none, ⟨3, 2⟩⟩,
    .send ⟨true, 1, 67, 90, none, ⟨3, 2⟩⟩, .wait ⟨2, .beats, ⟨3, 2⟩⟩,
    .send ⟨false, 1, 60, 0, none, ⟨3, 2⟩⟩, .send ⟨false, 1, 64, 0, none, ⟨3, 2⟩⟩,
    .send ⟨false, 1, 67, 0, none, ⟨3, 2⟩⟩]
  labels := [("a", 0)]
  spans := [⟨"a", 0, 7, [], ⟨2, 7⟩⟩]

set_option maxRecDepth 4000 in
theorem parse_press : Source.parse pressText none = .ok pressTree := by
  cbv

theorem link_press : link pressTree none = .ok pressProgram := by
  cbv

theorem link_desugar_press : Source.parse pressText none = .ok pressTree ∧
    link pressTree none = .ok pressProgram ∧
    ∃ q, link ((Presets.of (settingsOf (nodes pressTree))).desugar pressTree) none = .ok q ∧
      q.instructions = pressProgram.instructions ∧ q.labels = pressProgram.labels ∧
      q.spans = pressProgram.spans ∧ q.jumpSites = pressProgram.jumpSites :=
  ⟨parse_press, link_press, link_desugar parse_press link_press⟩

end Ostinato
