import Ostinato.Compile
import Ostinato.Proofs.Linking
import Ostinato.Proofs.Nesting

/-!
# Compiled programs are playable

The machine checks the numbers of every instruction before it acts on them. `Statement.Playable`
is what it checks, and `compile_wellFormed` says that a program which compiles passes all of it:
what the reader bounds (`Statement.InRange`) survives the walk, press lines included, and a jump
goes to the start of a label or of a loop body, which lies inside the program or right behind it.
-/

namespace Ostinato

/-- What the machine asks of an instruction of a program with `n` instructions. -/
def Statement.Playable (n : Nat) : Statement → Prop
  | .send s => s.InRange
  | .wait w => w.InRange
  | .tempo t => t.InRange
  | .jump j => (∃ t, j.target = some t ∧ 0 ≤ t ∧ t ≤ n) ∧ ∀ b, j.count = some b → 0 ≤ b
  | _ => False

/-- A program that the machine can execute: every instruction passes its checks, and the table of
jump sites is the one of the jumps. A jump that does not end a loop goes to the start of a label. -/
structure Program.WellFormed (p : Program) : Prop where
  playable : ∀ s ∈ p.instructions.toList, s.Playable p.length
  sites : p.jumpSites = Link.sitesFrom 0 p.instructions.toList
  labelled : ∀ j, .jump j ∈ p.instructions.toList →
    (∃ pos, j.label = Link.loopName pos) ∨ p.labels.lookup j.label = j.target

/-! ## Press lines -/

theorem Chord.notes_ok {c : Chord} {notes : List Int} (hr : 0 ≤ c.root) (h : c.notes = .ok notes) :
    ∀ n ∈ notes, IsNote n := by
  unfold Chord.notes at h
  split at h
  · cases h
  · rename_i steps hk
    dsimp only at h
    split at h
    · rename_i htop
      cases h
      -- Intervals rise, so the last note is the highest.
      have hsteps : ∀ k ∈ steps, 0 ≤ k ∧ c.root + k ≤ (steps.map (c.root + ·)).getLastD c.root := by
        unfold ChordKind.intervals? at hk
        split at hk <;> cases hk <;> simp
      intro n hn
      obtain ⟨k, hk, rfl⟩ := List.mem_map.mp hn
      obtain ⟨h0, h1⟩ := hsteps k hk
      exact ⟨by omega, by omega⟩
    · split at h <;> cases h

namespace Link

theorem mem_addNew {seen new : List Int} {n : Int} (h : n ∈ addNew seen new) :
    n ∈ seen ∨ n ∈ new := by
  induction new generalizing seen with
  | nil => exact .inl h
  | cons k rest ih =>
    unfold addNew at h
    split at h
    · rcases ih h with h | h
      · exact .inl h
      · exact .inr (List.mem_cons_of_mem _ h)
    · rcases ih h with h | h
      · rcases List.mem_append.mp h with h | h
        · exact .inl h
        · exact .inr (by simp at h; simp [h])
      · exact .inr (List.mem_cons_of_mem _ h)

theorem pitches_ok {seen notes : List Int} {chords : List Chord} (hseen : ∀ n ∈ seen, IsNote n)
    (hc : ∀ c ∈ chords, 0 ≤ c.root) (h : pitches seen chords = .ok notes) :
    ∀ n ∈ notes, IsNote n := by
  induction chords generalizing seen with
  | nil =>
    cases h
    exact hseen
  | cons c rest ih =>
    unfold pitches at h
    split at h
    · cases h
    · rename_i new hnew
      refine ih (fun n hn => ?_) (fun c hc' => hc c (by simp [hc'])) h
      rcases mem_addNew hn with hn | hn
      · exact hseen n hn
      · exact Chord.notes_ok (hc c (by simp)) hnew n hn

structure Defaults.InRange (d : Defaults) : Prop where
  velocity : ∃ v, d.velocity = .number v ∧ IsVelocity v
  channel : ∃ c, d.channel = .number c ∧ IsChannel c
  duration : ∃ w, d.duration = .duration w ∧ w.InRange
  output : ∃ o, outputName? d.output = some o

theorem Defaults.inRange_initial : ({} : Defaults).InRange where
  velocity := ⟨90, rfl, by decide, by decide⟩
  channel := ⟨0, rfl, by decide, by decide⟩
  duration := ⟨_, rfl, by decide, fun _ => by simp⟩
  output := ⟨none, rfl⟩

theorem Defaults.InRange.set {d : Defaults} (hd : d.InRange) {s : Setting} (hs : s.InRange) :
    (d.set s).InRange := by
  cases hs with
  | velocity hv => exact ⟨⟨_, rfl, hv⟩, hd.channel, hd.duration, hd.output⟩
  | channel hc => exact ⟨hd.velocity, ⟨_, rfl, hc⟩, hd.duration, hd.output⟩
  | duration hw => exact ⟨hd.velocity, hd.channel, ⟨_, rfl, hw⟩, hd.output⟩
  | output => exact ⟨hd.velocity, hd.channel, hd.duration, ⟨_, rfl⟩⟩
  | signature => exact hd

/-! ## The code of a tree -/

/-- `Statement.Playable` before jumps are resolved, when only those of loops have a target. -/
def Lowered (n : Nat) : Statement → Prop
  | .jump j =>
    (j.target = none ∨ (∃ pos, j.label = loopName pos) ∧ ∃ t, j.target = some t ∧ 0 ≤ t ∧ t ≤ n) ∧
      ∀ b, j.count = some b → 0 ≤ b
  | s => s.Playable n

theorem Lowered.mono {n n' : Nat} {s : Statement} (hs : Lowered n s) (hn : n ≤ n') :
    Lowered n' s := by
  cases s with
  | jump j =>
    obtain ⟨hnone | ⟨hname, t, ht, h0, h1⟩, hb⟩ := hs
    · exact ⟨.inl hnone, hb⟩
    · exact ⟨.inr ⟨hname, t, ht, h0, by omega⟩, hb⟩
  | _ => exact hs

theorem note_lowered {on : Bool} {channel velocity output : SettingValue} {pos : Pos}
    {pitch c v : Int} {o : Option String} (n : Nat) (hc : channel = .number c)
    (hv : velocity = .number v) (ho : outputName? output = some o) (hcr : IsChannel c)
    (hvr : IsVelocity v) (hp : IsNote pitch) :
    Lowered n (note on channel velocity output pos pitch) := by
  subst hc hv
  simp only [note, ho]
  exact ⟨hcr, hp, hvr⟩

/-- In range there is always a wait, which is the line's own or the default one. -/
theorem pressWait?_inRange {d : Defaults} (hd : d.InRange) {p : Play} (hp : p.InRange) :
    ∃ w, pressWait? d p = some w ∧ w.InRange := by
  obtain ⟨w, hw, hwr⟩ := hd.duration
  cases hdur : p.duration with
  | none => exact ⟨w, by simp [pressWait?, hdur, hw], hwr⟩
  | some w' => exact ⟨w', by simp [pressWait?, hdur], hp.duration w' hdur⟩

theorem pressed_lowered {d : Defaults} (hd : d.InRange) {p : Play} (hp : p.InRange) (n : Nat) :
    ∀ s ∈ pressed d p, Lowered n s := by
  have hpitch : ∀ {notes}, pitches [] p.chords = .ok notes → ∀ k ∈ notes, IsNote k := fun h =>
    pitches_ok (fun n hn => by cases hn) (fun c hc => (hp.chords c hc).1) h
  obtain ⟨c, hc, hcr⟩ : ∃ c, (p.channel.map .number).getD d.channel = .number c ∧ IsChannel c := by
    cases hpc : p.channel with
    | none => exact hd.channel
    | some c => exact ⟨c, rfl, hp.channel c hpc⟩
  obtain ⟨v, hv, hvr⟩ : ∃ v, (p.velocity.map .number).getD d.velocity = .number v ∧
      IsVelocity v := by
    cases hpv : p.velocity with
    | none => exact hd.velocity
    | some v => exact ⟨v, rfl, hp.velocity v hpv⟩
  obtain ⟨o, ho⟩ : ∃ o, outputName? ((p.output.map .name).getD d.output) = some o := by
    cases p.output with
    | none => exact hd.output
    | some o => exact ⟨some o, rfl⟩
  intro s hs
  cases pressPart_of_mem hs with
  | on hnotes hk => exact note_lowered n hc hv ho hcr hvr (hpitch hnotes _ hk)
  | @wait w hw =>
    obtain ⟨w', hw', hwr⟩ := pressWait?_inRange hd hp
    cases hw.symm.trans hw'
    exact (hwr : w.InRange)
  | off hnotes hk => exact note_lowered n hc rfl ho hcr ⟨by decide, by decide⟩ (hpitch hnotes _ hk)

theorem jumpBack_lowered {count : Option Int} (hc : ∀ n, count = some n → 1 ≤ n) {base n : Nat}
    (hb : base ≤ n) {pos : Pos} : ∀ s ∈ jumpBack count base pos, Lowered n s := by
  intro s hs
  obtain ⟨-, rfl⟩ := mem_jumpBack.mp hs
  refine ⟨.inr ⟨⟨pos, rfl⟩, base, rfl, by omega, by omega⟩, fun b hb => ?_⟩
  obtain ⟨k, hcount, rfl⟩ := Option.map_eq_some_iff.mp hb
  have := hc k hcount
  omega

/-- What the reader bounds stays bounded in the code, and loops jump to an index of it. -/
theorem lower_lowered {tree : List Statement} {d : Defaults} {base : Nat} (hd : d.InRange)
    (h : Forest.Each Statement.InRange tree) :
    ∀ s ∈ lower d base tree, Lowered (base + (lower d base tree).length) s := by
  induction tree using Forest.induct generalizing d base with
  | nil => simp [lower]
  | label name body pos rest ihBody ihRest =>
    obtain ⟨-, hbody, hrest⟩ := h.label
    simp only [lower, List.length_append]
    intro s hs
    rcases List.mem_append.mp hs with hs | hs
    · exact (ihBody hd hbody s hs).mono (by omega)
    · exact (ihRest hd hrest s hs).mono (by omega)
  | loop count body pos rest ihBody ihRest =>
    obtain ⟨hcount, hbody, hrest⟩ := h.loop
    simp only [lower, List.length_append]
    intro s hs
    rcases List.mem_append.mp hs with hs | hs
    · exact (ihBody hd hbody s hs).mono (by omega)
    · rcases List.mem_append.mp hs with hs | hs
      · exact jumpBack_lowered hcount (by omega) s hs
      · exact (ihRest hd hrest s hs).mono (by omega)
  | leaf s rest hleaf ih =>
    obtain ⟨hs, hrest⟩ := h.leaf hleaf
    cases s with
    | label | loop => simp [Statement.isBlock] at hleaf
    | looseSend => exact absurd hs id
    | setting s =>
      simp only [lower]
      exact ih (hd.set hs) hrest
    | play p =>
      simp only [lower, List.length_append]
      intro t ht
      rcases List.mem_append.mp ht with ht | ht
      · exact pressed_lowered hd hs _ t ht
      · exact (ih hd hrest t ht).mono (by omega)
    | jump j =>
      simp only [lower, List.length_cons]
      intro t ht
      rcases List.mem_cons.mp ht with rfl | ht
      · exact ⟨.inl hs.1, hs.2.2⟩
      · exact (ih hd hrest t ht).mono (by omega)
    | _ =>
      simp only [lower, List.length_cons]
      intro t ht
      rcases List.mem_cons.mp ht with rfl | ht
      · exact hs
      · exact (ih hd hrest t ht).mono (by omega)

theorem declarations_start_le {tree : List Statement} {d : Defaults} {base : Nat} :
    ∀ dec ∈ declarations d base tree, dec.start ≤ base + (lower d base tree).length := by
  induction tree using Forest.induct generalizing d base with
  | nil => simp [declarations]
  | label name body pos rest ihBody ihRest =>
    simp only [declarations, lower, List.length_append]
    intro dec hdec
    rcases List.mem_cons.mp hdec with rfl | hdec
    · simp only
      omega
    · rcases List.mem_append.mp hdec with hdec | hdec
      · have := ihBody dec hdec
        omega
      · have := ihRest dec hdec
        omega
  | loop count body pos rest ihBody ihRest =>
    simp only [declarations, lower, List.length_append]
    intro dec hdec
    rcases List.mem_append.mp hdec with hdec | hdec
    · have := ihBody dec hdec
      omega
    · have := ihRest dec hdec
      omega
  | leaf s rest hleaf ih =>
    cases s with
    | label | loop => simp [Statement.isBlock] at hleaf
    | _ =>
      simp only [declarations, lower, List.length_append, List.length_cons]
      intro dec hdec
      have := ih dec hdec
      omega

/-! ## Programs -/

theorem start?_ok {declared : List Declaration} {name : String} {t : Int}
    (h : start? declared name = some t) :
    ∃ dec ∈ declared, (dec.start : Int) = t := by
  simp only [start?, Option.map_eq_some_iff] at h
  obtain ⟨dec, hfind, rfl⟩ := h
  exact ⟨dec, List.mem_of_find?_eq_some hfind, rfl⟩

theorem lookup_labels (declared : List Declaration) (name : String) :
    (declared.map fun d => (d.name, (d.start : Int))).lookup name = start? declared name := by
  induction declared with
  | nil => rfl
  | cons dec rest ih =>
    rw [List.map_cons, List.lookup_cons, start?, List.find?_cons, ih]
    by_cases hn : dec.name = name
    · simp [hn]
    · have hl : (name == dec.name) = false := by simpa using Ne.symm hn
      have hr : (dec.name == name) = false := by simpa using hn
      simp only [hl, hr, start?]

theorem program_wellFormed {tree : List Statement} {name : Option String} {p : Program}
    (htree : Forest.Each Statement.InRange tree) (h : link tree name = .ok p) : p.WellFormed := by
  obtain ⟨hcode, hlabels, hsites, htargets⟩ := link_ok h
  have hlen : p.length = (lower {} 0 tree).length := by
    rw [Program.length, ← Array.length_toList, hcode, List.length_map]
  refine ⟨fun s hs => ?_, hsites, fun j hj => ?_⟩
  · rw [hcode] at hs
    obtain ⟨s₀, hs₀, rfl⟩ := List.mem_map.mp hs
    have hl := lower_lowered Defaults.inRange_initial htree s₀ hs₀
    rw [Nat.zero_add, ← hlen] at hl
    cases s₀ with
    | jump j =>
      refine ⟨?_, hl.2⟩
      rcases hl.1 with hnone | ⟨-, t, ht, hr⟩
      · obtain ⟨t, ht⟩ := htargets _ (by rw [hcode]; exact hs)
        simp only [hnone, Option.none_or] at ht
        obtain ⟨dec, hdec, rfl⟩ := start?_ok ht
        have := declarations_start_le dec hdec
        exact ⟨dec.start, by simpa [hnone] using ht, by omega, by omega⟩
      · exact ⟨t, by simp [ht], hr⟩
    | _ => exact hl
  · rw [hcode] at hj
    obtain ⟨s₀, hs₀, hs⟩ := List.mem_map.mp hj
    have hl := lower_lowered Defaults.inRange_initial htree s₀ hs₀
    cases s₀ with
    | jump j₀ =>
      cases hs
      rcases hl.1 with hnone | ⟨hloop, -⟩
      · right
        rw [hlabels, lookup_labels]
        simp [hnone]
      · exact .inl hloop
    | _ => cases hs

end Link

theorem compile_ok {text : String} {name : Option String} {p : Program}
    (h : compile text name = .ok p) :
    ∃ tree, Source.parse text name = .ok tree ∧ link tree name = .ok p := by
  unfold compile at h
  split at h
  · cases h
  · rename_i tree hparse
    split at h
    · cases h
    · rename_i q hlink
      cases h
      exact ⟨tree, hparse, hlink⟩

/-! ## Jump sites -/

section
variable {p : Program} {i : Int} {s : Statement}

theorem Program.at?_eq_some :
    p.at? i = some s ↔ 0 ≤ i ∧ p.instructions.toList[i.toNat]? = some s := by
  unfold Program.at?
  by_cases hi : i < 0
  · rw [if_pos hi]
    simp
    omega
  · rw [if_neg hi, Array.getElem?_toList]
    simp
    omega

theorem Program.mem_of_at? (h : p.at? i = some s) : s ∈ p.instructions.toList :=
  List.mem_of_getElem? (Program.at?_eq_some.mp h).2

theorem Program.at?_of_lt (h0 : 0 ≤ i) (h : i < p.length) : ∃ s, p.at? i = some s := by
  have hlt : i.toNat < p.instructions.toList.length := by
    rw [Array.length_toList]
    unfold Program.length at h
    omega
  exact ⟨_, Program.at?_eq_some.mpr ⟨h0, List.getElem?_eq_getElem hlt⟩⟩

theorem Program.lt_of_at? (h : p.at? i = some s) : 0 ≤ i ∧ i < p.length := by
  obtain ⟨h0, hs⟩ := Program.at?_eq_some.mp h
  obtain ⟨hlt, -⟩ := List.getElem?_eq_some_iff.mp hs
  rw [Array.length_toList] at hlt
  unfold Program.length
  omega

end

namespace Link

theorem site?_eq_some {i : Nat} {s : Statement} {site : JumpSite} :
    site? i s = some site ↔
      ∃ pos, site.index = i ∧ s = .jump ⟨site.label, site.bound, some site.target, pos⟩ := by
  cases s with
  | jump j =>
    simp only [site?, Option.map_eq_some_iff]
    constructor
    · rintro ⟨t, ht, rfl⟩
      exact ⟨j.pos, rfl, by rw [← ht]⟩
    · rintro ⟨pos, hi, hj⟩
      cases hj
      exact ⟨site.target, rfl, by rw [← hi]⟩
  | _ => simp [site?]

theorem mem_sitesFrom {code : List Statement} {i : Nat} {site : JumpSite} :
    site ∈ sitesFrom i code ↔ ∃ k s, code[k]? = some s ∧ site? (i + k) s = some site := by
  simp only [sitesFrom, List.mem_filterMap, Prod.exists, List.mem_zipIdx_iff_le_and_getElem?_sub]
  constructor
  · rintro ⟨s, n, ⟨hle, hs⟩, hsite⟩
    exact ⟨n - i, s, hs, by rwa [Nat.add_sub_cancel' hle]⟩
  · rintro ⟨k, s, hs, hsite⟩
    exact ⟨s, i + k, ⟨by omega, by rwa [Nat.add_sub_cancel_left]⟩, hsite⟩

theorem sitesFrom_nodup (code : List Statement) (i : Nat) :
    ((sitesFrom i code).map (·.index)).Nodup := by
  induction code generalizing i with
  | nil => simp [sitesFrom]
  | cons s rest ih =>
    have hcons : sitesFrom i (s :: rest) = (site? i s).toList ++ sitesFrom (i + 1) rest := by
      simp only [sitesFrom, List.zipIdx_cons, List.filterMap_cons]
      cases site? i s <;> rfl
    rw [hcons]
    cases hs : site? i s with
    | none => exact ih (i + 1)
    | some site =>
      simp only [Option.toList_some, List.singleton_append, List.map_cons, List.nodup_cons]
      refine ⟨fun hmem => ?_, ih (i + 1)⟩
      obtain ⟨site', hsite', he⟩ := List.mem_map.mp hmem
      obtain ⟨k, s', -, hk⟩ := mem_sitesFrom.mp hsite'
      obtain ⟨-, hi, -⟩ := site?_eq_some.mp hs
      obtain ⟨-, hi', -⟩ := site?_eq_some.mp hk
      omega

end Link

section
variable {p : Program} (hp : p.WellFormed)
include hp

theorem Program.WellFormed.mem_jumpSites {site : JumpSite} :
    site ∈ p.jumpSites ↔
      ∃ pos, p.at? site.index = some (.jump ⟨site.label, site.bound, some site.target, pos⟩) := by
  rw [hp.sites, Link.mem_sitesFrom]
  constructor
  · rintro ⟨k, s, hs, hsite⟩
    obtain ⟨pos, hi, rfl⟩ := Link.site?_eq_some.mp hsite
    refine ⟨pos, Program.at?_eq_some.mpr ⟨by omega, ?_⟩⟩
    rw [show site.index.toNat = k by omega, hs]
  · rintro ⟨pos, hat⟩
    obtain ⟨h0, hs⟩ := Program.at?_eq_some.mp hat
    exact ⟨site.index.toNat, _, hs, Link.site?_eq_some.mpr ⟨pos, by omega, rfl⟩⟩

theorem Program.WellFormed.mem_indices {i : Int} :
    i ∈ p.jumpSites.map (·.index) ↔ ∃ j, p.at? i = some (.jump j) := by
  constructor
  · intro hi
    obtain ⟨site, hsite, rfl⟩ := List.mem_map.mp hi
    obtain ⟨pos, hat⟩ := hp.mem_jumpSites.mp hsite
    exact ⟨_, hat⟩
  · rintro ⟨j, hat⟩
    obtain ⟨⟨t, ht, -⟩, -⟩ := hp.playable _ (Program.mem_of_at? hat)
    have hsite : ⟨i, j.label, t, j.count⟩ ∈ p.jumpSites :=
      hp.mem_jumpSites.mpr ⟨j.pos, by rw [hat, ← ht]⟩
    exact List.mem_map.mpr ⟨_, hsite, rfl⟩

theorem Program.WellFormed.indices_nodup : (p.jumpSites.map (·.index)).Nodup := by
  rw [hp.sites]
  exact Link.sitesFrom_nodup _ _

end

/-- **Compiled programs are well formed.** -/
theorem compile_wellFormed {text : String} {name : Option String} {p : Program}
    (h : compile text name = .ok p) : p.WellFormed := by
  obtain ⟨tree, hparse, hlink⟩ := compile_ok h
  exact Link.program_wellFormed (Source.parse_inRange hparse) hlink

def sampleProgram : Program where
  instructions := #[
    .send ⟨true, 0, 60, 90, none, ⟨4, 3⟩⟩, .wait ⟨1, .ticks, ⟨4, 3⟩⟩,
    .send ⟨false, 0, 60, 0, none, ⟨4, 3⟩⟩, .jump ⟨"loop@3", some 2, some 0, ⟨3, 2⟩⟩,
    .wait ⟨1, .ticks, ⟨5, 5⟩⟩, .jump ⟨"loop@1", some 1, some 0, ⟨1, 1⟩⟩]
  labels := [("a", 0)]
  spans := [⟨"a", 0, 5, [], ⟨2, 8⟩⟩]
  jumpSites := [⟨3, "loop@3", 0, some 2⟩, ⟨5, "loop@1", 0, some 1⟩]

theorem link_sample : link Source.sampleTree none = .ok sampleProgram := by
  cbv

theorem compile_sample : compile Source.sampleText none = .ok sampleProgram := by
  rw [compile, Source.parse_sample]
  simp only [link_sample]

end Ostinato
