import Ostinato.Link
import Ostinato.Proofs.Reading

/-!
# What linking makes of a tree

`Walk scope st tree st'` says that flattening `tree` leads from `st` to `st'`: one constructor for
each thing the walk can do, over lists only, so that a fact about linking is one induction. The
walk's parts are then given as functions of the tree: `lower` is the code it makes, placed at a base
index, and `declarations` the labels with the index each of them starts at. `link_ok` puts the
parts together for a whole program.
-/

namespace Ostinato.Link

/-! ## The walk as a relation -/

def State.leaveHeader (st : State) : State := { st with inHeader := false }

def State.declare (st : State) (name : String) (pos : Pos) : State :=
  { st with inHeader := false, declared := st.declared ++ [⟨name, pos, st.code.size⟩] }

def State.closeLabel (st : State) (name : String) (start : Nat) (scope : List String)
    (pos : Pos) : State :=
  { st with spans := st.spans ++ [⟨name, start, st.code.size, scope, pos⟩] }

def State.append (st : State) (code : List Statement) : State :=
  { st with inHeader := false, code := st.code ++ code.toArray }

/-- The instructions that go into the code as they are and end the header. -/
def isPlainCode : Statement → Bool
  | .send _ | .looseSend _ | .wait _ | .jump _ => true
  | _ => false

inductive Walk : List String → State → List Statement → State → Prop where
  | nil {scope : List String} {st : State} : Walk scope st [] st
  | setting {scope : List String} {st st₁ st₂ : State} {s : Setting} {rest : List Statement} :
      st.set s = .ok st₁ → Walk scope st₁ rest st₂ → Walk scope st (.setting s :: rest) st₂
  | label {scope : List String} {st st₁ st₂ : State} {name : String} {body rest : List Statement}
      {pos : Pos} :
      st.declared.find? (·.name == name) = none →
      Walk (scope ++ [name]) (st.declare name pos) body st₁ →
      Walk scope (st₁.closeLabel name st.code.size scope pos) rest st₂ →
      Walk scope st (.label name body pos :: rest) st₂
  | loop {scope : List String} {st st₁ st₂ : State} {count : Option Int}
      {body rest : List Statement} {pos : Pos} :
      Walk scope st.leaveHeader body st₁ →
      Walk scope (st₁.closeLoop count st.code.size pos) rest st₂ →
      Walk scope st (.loop count body pos :: rest) st₂
  | play {scope : List String} {st st₂ : State} {p : Play} {code rest : List Statement} :
      press st.defaults p = .ok code → Walk scope (st.append code) rest st₂ →
      Walk scope st (.play p :: rest) st₂
  | tempo {scope : List String} {st st₂ : State} {t : Tempo} {rest : List Statement} :
      Walk scope (st.push (.tempo t)) rest st₂ → Walk scope st (.tempo t :: rest) st₂
  | plain {scope : List String} {st st₂ : State} {s : Statement} {rest : List Statement} :
      isPlainCode s = true → Walk scope (st.leaveHeader.push s) rest st₂ →
      Walk scope st (s :: rest) st₂

theorem walk_of_emitAll {tree : List Statement} {scope : List String} {st st' : State}
    (h : emitAll scope st tree = .ok st') : Walk scope st tree st' := by
  induction tree using Forest.induct generalizing scope st st' with
  | nil =>
    simp only [emitAll, Except.ok.injEq] at h
    exact h ▸ .nil
  | label name body pos rest ihBody ihRest =>
    simp only [emitAll, emit] at h
    split at h
    · cases h
    · rename_i st₁ hs
      split at hs
      · cases hs
      · rename_i hnew
        split at hs
        · cases hs
        · rename_i hbody
          cases hs
          exact .label hnew (ihBody hbody) (ihRest h)
  | loop count body pos rest ihBody ihRest =>
    simp only [emitAll, emit] at h
    split at h
    · cases h
    · rename_i st₁ hs
      split at hs
      · cases hs
      · rename_i hbody
        cases hs
        exact .loop (ihBody hbody) (ihRest h)
  | leaf s rest hs ih =>
    cases s with
    | label | loop => simp [Statement.isBlock] at hs
    | setting s =>
      simp only [emitAll, emit] at h
      split at h
      · cases h
      · rename_i hset
        exact .setting hset (ih h)
    | play p =>
      simp only [emitAll, emit] at h
      split at h
      · cases h
      · rename_i hp
        split at hp
        · cases hp
        · rename_i hcode
          cases hp
          exact .play hcode (ih h)
    | tempo t =>
      simp only [emitAll, emit] at h
      exact .tempo (ih h)
    | _ =>
      simp only [emitAll, emit] at h
      exact .plain rfl (ih h)

theorem State.closeLoop_frame (st : State) (count : Option Int) (start : Nat) (pos : Pos) :
    (st.closeLoop count start pos).defaults = st.defaults ∧
      (st.closeLoop count start pos).inHeader = st.inHeader ∧
      (st.closeLoop count start pos).declared = st.declared ∧
      (st.closeLoop count start pos).spans = st.spans ∧
      (st.closeLoop count start pos).settings = st.settings := by
  unfold State.closeLoop
  split <;> exact ⟨rfl, rfl, rfl, rfl, rfl⟩

/-- Behind the header no setting is taken, so the defaults stay. -/
theorem Walk.defaults {scope : List String} {st st' : State} {tree : List Statement}
    (h : Walk scope st tree st') (hst : st.inHeader = false) :
    st'.defaults = st.defaults ∧ st'.inHeader = false := by
  induction h with
  | nil => exact ⟨rfl, hst⟩
  | setting hset =>
    simp only [State.set, hst] at hset
    split at hset
    · cases hset
    · simp at hset
  | label _ _ _ ihBody ihRest =>
    obtain ⟨hd, hh⟩ := ihBody rfl
    obtain ⟨hd', hh'⟩ := ihRest hh
    exact ⟨hd'.trans hd, hh'⟩
  | @loop _ _ st₁ _ count _ _ pos _ _ ihBody ihRest =>
    obtain ⟨hd, hh⟩ := ihBody rfl
    obtain ⟨hcd, hch, -⟩ := st₁.closeLoop_frame count _ pos
    obtain ⟨hd', hh'⟩ := ihRest (hch.trans hh)
    exact ⟨(hd'.trans hcd).trans hd, hh'⟩
  | play _ _ ih => exact ih rfl
  | tempo _ ih => exact ih hst
  | plain _ _ ih => exact ih rfl

/-! ## The code of a tree -/

def Defaults.set (d : Defaults) (s : Setting) : Defaults :=
  match s.name with
  | "velocity" => { d with velocity := s.value }
  | "channel" => { d with channel := s.value }
  | "duration" => { d with duration := s.value }
  | "output" => { d with output := s.value }
  | _ => d

def pressed (d : Defaults) (p : Play) : List Statement :=
  match press d p with
  | .ok code => code
  | .error _ => []

/-- A press line that has instructions turns each of its pitches on, waits and turns them off. -/
theorem press_eq_ok {d : Defaults} {p : Play} {code : List Statement} :
    press d p = .ok code ↔ ∃ notes w, pitches [] p.chords = .ok notes ∧ pressWait? d p = some w ∧
      code = notes.map (note true ((p.channel.map .number).getD d.channel)
          ((p.velocity.map .number).getD d.velocity) ((p.output.map .name).getD d.output) p.pos) ++
        .wait { w with pos := p.pos } ::
          notes.map (note false ((p.channel.map .number).getD d.channel) (.number 0)
            ((p.output.map .name).getD d.output) p.pos) := by
  constructor
  · intro h
    unfold press at h
    split at h
    · cases h
    · rename_i notes hnotes
      dsimp only at h
      split at h
      · cases h
      · rename_i w hw
        cases h
        exact ⟨notes, w, hnotes, hw, rfl⟩
  · rintro ⟨notes, w, hnotes, hw, rfl⟩
    simp only [press, hnotes, hw]

/-- What an instruction of a press line can be. -/
inductive PressPart (d : Defaults) (p : Play) : Statement → Prop where
  | on {notes : List Int} {pitch : Int} : pitches [] p.chords = .ok notes → pitch ∈ notes →
      PressPart d p (note true ((p.channel.map .number).getD d.channel)
        ((p.velocity.map .number).getD d.velocity) ((p.output.map .name).getD d.output) p.pos pitch)
  | wait {w : Wait} : pressWait? d p = some w → PressPart d p (.wait { w with pos := p.pos })
  | off {notes : List Int} {pitch : Int} : pitches [] p.chords = .ok notes → pitch ∈ notes →
      PressPart d p (note false ((p.channel.map .number).getD d.channel) (.number 0)
        ((p.output.map .name).getD d.output) p.pos pitch)

theorem pressPart_of_mem {d : Defaults} {p : Play} {s : Statement} (hs : s ∈ pressed d p) :
    PressPart d p s := by
  unfold pressed at hs
  split at hs
  · rename_i code h
    obtain ⟨notes, w, hnotes, hw, rfl⟩ := press_eq_ok.mp h
    simp only [List.mem_append, List.mem_cons, List.mem_map] at hs
    obtain ⟨pitch, hpitch, rfl⟩ | rfl | ⟨pitch, hpitch, rfl⟩ := hs
    · exact .on hnotes hpitch
    · exact .wait hw
    · exact .off hnotes hpitch
  · cases hs

theorem isJump_note (on : Bool) (channel velocity output : SettingValue) (pos : Pos)
    (pitch : Int) : (note on channel velocity output pos pitch).isJump = false := by
  unfold note
  split <;> rfl

theorem isJump_pressed {d : Defaults} {p : Play} : ∀ s ∈ pressed d p, s.isJump = false := by
  intro s hs
  cases pressPart_of_mem hs with
  | on | off => exact isJump_note ..
  | wait => rfl

def jumpBack (count : Option Int) (base : Nat) (pos : Pos) : List Statement :=
  if count = some 1 then []
  else [.jump ⟨loopName pos, count.map (· - 1), some (base : Int), pos⟩]

theorem mem_jumpBack {count : Option Int} {base : Nat} {pos : Pos} {s : Statement} :
    s ∈ jumpBack count base pos ↔
      count ≠ some 1 ∧ s = .jump ⟨loopName pos, count.map (· - 1), some (base : Int), pos⟩ := by
  unfold jumpBack
  split <;> simp [*]

theorem length_jumpBack_le (count : Option Int) (base : Nat) (pos : Pos) :
    (jumpBack count base pos).length ≤ 1 := by
  unfold jumpBack
  split <;> simp

/-- The code of a tree that is placed at index `base`. -/
def lower (d : Defaults) (base : Nat) : List Statement → List Statement
  | [] => []
  | .label _ body _ :: rest => lower d base body ++ lower d (base + (lower d base body).length) rest
  | .loop count body pos :: rest =>
    lower d base body ++ (jumpBack count base pos ++
      lower d (base + (lower d base body).length + (jumpBack count base pos).length) rest)
  | .play p :: rest => pressed d p ++ lower d (base + (pressed d p).length) rest
  | .setting s :: rest => lower (d.set s) base rest
  | s :: rest => s :: lower d (base + 1) rest

def declarations (d : Defaults) (base : Nat) : List Statement → List Declaration
  | [] => []
  | .label name body pos :: rest =>
    ⟨name, pos, base⟩ :: (declarations d base body ++
      declarations d (base + (lower d base body).length) rest)
  | .loop count body pos :: rest =>
    declarations d base body ++
      declarations d (base + (lower d base body).length + (jumpBack count base pos).length) rest
  | .play p :: rest => declarations d (base + (pressed d p).length) rest
  | .setting s :: rest => declarations (d.set s) base rest
  | _ :: rest => declarations d (base + 1) rest

section
variable {d : Defaults} {base : Nat} {rest : List Statement}

theorem lower_plain {s : Statement} (hs : isPlainCode s = true) :
    lower d base (s :: rest) = s :: lower d (base + 1) rest := by
  cases s <;> simp_all [isPlainCode, lower]

theorem declarations_plain {s : Statement} (hs : isPlainCode s = true) :
    declarations d base (s :: rest) = declarations d (base + 1) rest := by
  cases s <;> simp_all [isPlainCode, declarations]

end

theorem State.set_eq_ok {st st' : State} {s : Setting} : st.set s = .ok st' ↔
    st.settings.find? (·.name == s.name) = none ∧ st.inHeader = true ∧ st.store? s = some st' := by
  constructor
  · intro h
    unfold State.set at h
    split at h
    · cases h
    · rename_i hnew
      split at h
      · cases h
      · rename_i hin
        split at h
        · rename_i hstore
          cases h
          exact ⟨hnew, by simpa using hin, hstore⟩
        · cases h
  · rintro ⟨hnew, hin, hstore⟩
    simp [State.set, hnew, hin, hstore]

theorem State.set_ok {st st' : State} {s : Setting} (h : st.set s = .ok st') :
    st'.code = st.code ∧ st'.declared = st.declared ∧ st'.defaults = st.defaults.set s ∧
      st'.spans = st.spans ∧ st'.settings = st.settings ++ [s] ∧ st'.inHeader = st.inHeader := by
  obtain ⟨-, -, hst⟩ := State.set_eq_ok.mp h
  unfold State.store? at hst
  unfold Defaults.set
  dsimp only at hst
  split at hst <;> simp only [Option.some.injEq, reduceCtorEq] at hst <;> subst hst <;> simp_all

theorem State.closeLoop_code (st : State) (count : Option Int) (start : Nat) (pos : Pos) :
    (st.closeLoop count start pos).code.toList = st.code.toList ++ jumpBack count start pos := by
  unfold State.closeLoop jumpBack State.push
  split <;> simp

/-- The walk appends the code of the tree, and its labels. -/
theorem Walk.code {scope : List String} {st st' : State} {tree : List Statement}
    (h : Walk scope st tree st') :
    st'.code.toList = st.code.toList ++ lower st.defaults st.code.size tree ∧
      st'.declared = st.declared ++ declarations st.defaults st.code.size tree := by
  induction h with
  | nil => simp [lower, declarations]
  | setting hset _ ih =>
    obtain ⟨hc, hd, hf, -⟩ := State.set_ok hset
    rw [hc, hd, hf] at ih
    simpa [lower, declarations] using ih
  | @label _ st st₁ _ name body rest pos _ hbody _ ihBody ihRest =>
    obtain ⟨hc, hd⟩ := ihBody
    have hdef : st₁.defaults = st.defaults := (hbody.defaults rfl).1
    have hsize : st₁.code.size = st.code.size + (lower st.defaults st.code.size body).length := by
      rw [← Array.length_toList, hc, List.length_append, Array.length_toList]
      rfl
    simp only [State.closeLabel, State.declare, hdef, hsize] at ihRest hc hd
    rw [ihRest.1, ihRest.2, hc, hd]
    simp [lower, declarations]
  | @loop _ st st₁ _ count body rest pos hbody _ ihBody ihRest =>
    obtain ⟨hc, hd⟩ := ihBody
    have hdef : st₁.defaults = st.defaults := (hbody.defaults rfl).1
    have hl := st₁.closeLoop_code count st.code.size pos
    obtain ⟨hlf, -, hld, -⟩ := st₁.closeLoop_frame count st.code.size pos
    have hsize : (st₁.closeLoop count st.code.size pos).code.size = st.code.size +
        (lower st.defaults st.code.size body).length +
        (jumpBack count st.code.size pos).length := by
      rw [← Array.length_toList, hl, hc, List.length_append, List.length_append,
        Array.length_toList]
      rfl
    rw [hl, hld, hlf, hdef, hsize] at ihRest
    simp only [State.leaveHeader] at hc hd
    rw [ihRest.1, ihRest.2, hc, hd]
    simp [lower, declarations]
  | @play _ st _ p code rest hp _ ih =>
    have hcode : pressed st.defaults p = code := by rw [pressed, hp]
    simpa [State.append, lower, declarations, hcode] using ih
  | tempo _ ih => simpa [State.push, lower, declarations] using ih
  | plain hs _ ih =>
    simpa [State.push, State.leaveHeader, lower_plain hs, declarations_plain hs] using ih

/-! ## Jumps -/

/-- An instruction with its jump resolved. -/
def settle (declared : List Declaration) : Statement → Statement
  | .jump j => .jump { j with target := j.target.or (start? declared j.label) }
  | s => s

/-- The site of a jump that stands at index `i` and has a target. -/
def site? (i : Nat) : Statement → Option JumpSite
  | .jump j => j.target.map fun t => ⟨i, j.label, t, j.count⟩
  | _ => none

/-- The sites of the jumps in some code that starts at index `i`, in order. -/
def sitesFrom (i : Nat) (code : List Statement) : List JumpSite :=
  (code.zipIdx i).filterMap fun s => site? s.2 s.1

theorem resolve_other {declared : List Declaration} {i : Nat} {s : Statement}
    {rest code' : List Statement} {sites : List JumpSite} (hs : ∀ j, s ≠ .jump j)
    (h : resolve declared i (s :: rest) = .ok (code', sites)) :
    ∃ code, code' = s :: code ∧ resolve declared (i + 1) rest = .ok (code, sites) := by
  cases s with
  | jump j => exact absurd rfl (hs j)
  | _ =>
    simp only [resolve] at h
    split at h
    · cases h
    · rename_i code sites' hr
      cases h
      exact ⟨code, rfl, hr⟩

theorem resolve_ok {declared : List Declaration} {i : Nat} {code code' : List Statement}
    {sites : List JumpSite} (h : resolve declared i code = .ok (code', sites)) :
    code' = code.map (settle declared) ∧ sites = sitesFrom i code' ∧
      ∀ j, .jump j ∈ code' → ∃ t, j.target = some t := by
  induction code generalizing i code' sites with
  | nil =>
    simp only [resolve] at h
    cases h
    exact ⟨rfl, rfl, fun j hj => by cases hj⟩
  | cons s rest ih =>
    cases s with
    | jump j =>
      simp only [resolve] at h
      split at h
      · cases h
      · rename_i target htarget
        split at h
        · cases h
        · rename_i code₁ sites₁ hr
          cases h
          obtain ⟨hc, hsites, ht⟩ := ih hr
          refine ⟨by rw [List.map_cons, hc, settle, htarget], ?_, fun j' hj => ?_⟩
          · rw [hsites]
            simp [sitesFrom, List.zipIdx_cons, site?]
          · rcases List.mem_cons.mp hj with e | hj
            · cases e
              exact ⟨target, rfl⟩
            · exact ht j' hj
    | _ =>
      obtain ⟨code₁, rfl, hr⟩ := resolve_other (fun j e => by cases e) h
      obtain ⟨hc, hsites, ht⟩ := ih hr
      refine ⟨by rw [List.map_cons, hc]; rfl, ?_, fun j hj => ?_⟩
      · rw [hsites]
        simp [sitesFrom, List.zipIdx_cons, site?]
      · rcases List.mem_cons.mp hj with e | hj
        · cases e
        · exact ht j hj

/-- **What a program that links is.** Its instructions are the code of the tree with the jumps
resolved, its labels are those of the tree, and every jump has a target and a site. -/
theorem link_ok {tree : List Statement} {name : Option String} {p : Program}
    (h : link tree name = .ok p) :
    p.instructions.toList = (lower {} 0 tree).map (settle (declarations {} 0 tree)) ∧
      p.labels = (declarations {} 0 tree).map (fun d => (d.name, (d.start : Int))) ∧
      p.jumpSites = sitesFrom 0 p.instructions.toList ∧
      ∀ j, .jump j ∈ p.instructions.toList → ∃ t, j.target = some t := by
  unfold link program at h
  cases he : emitAll [] {} tree with
  | error e => simp [he] at h
  | ok st =>
    obtain ⟨hc, hd⟩ := (walk_of_emitAll he).code
    simp only [List.nil_append, List.size_toArray] at hc hd
    cases hr : resolve st.declared 0 st.code.toList with
    | error e => simp [he, hr] at h
    | ok out =>
      obtain ⟨code, sites⟩ := out
      obtain ⟨hcode, hsites, htargets⟩ := resolve_ok hr
      simp only [he, hr, Except.ok.injEq] at h
      subst h
      rw [hc, hd] at hcode
      exact ⟨hcode, by rw [hd]; rfl, hsites, htargets⟩

end Ostinato.Link
