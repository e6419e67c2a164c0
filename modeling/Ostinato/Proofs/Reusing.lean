import Ostinato.Proofs.Turns

/-!
# Players that can be used again

A player counts as running while one of its runs is ongoing, and no longer: a run that is left, because
it is over or because a listener or a number too large has made it fail, leaves the player idle
(`Acted.holds`, `Held.unfolds`). Then it can be started again.

There is one way out of a run that does not: it fails at its start. The listeners of the start are told
after the player has begun to count as running and before the run looks after that, so if one of them
fails, plain or deferred, the player is taken to be running though none of its runs is.
-/

namespace Ostinato.Live

def StartsQuietly (ls : List Listener) : Prop := ∀ l ∈ ls, l.occasion = .start → l.IsCourteous

/-- A run that has not been left, and has not come to its result either. -/
def Phase.isOngoing : Phase → Bool
  | .telling _ (.finish _) | .told _ (.finish _) | .ended _ => false
  | _ => true

/-- A run at its start tells of the start, and nobody fails at it. -/
def Phase.BeginsQuietly : Phase → Prop
  | .telling n .begin => n = .start
  | .told failure .begin => failure = none
  | _ => True

theorem Phase.isOngoing_of_isPlaying {phase : Phase} (h : phase.isPlaying = true) :
    phase.isOngoing = true := by
  unfold Phase.isPlaying at h
  split at h <;> trivial

theorem Phase.beginsQuietly_of_isPlaying {phase : Phase} (h : phase.isPlaying = true) :
    phase.BeginsQuietly := by
  unfold Phase.isPlaying at h
  split at h <;> trivial

theorem Phase.Like.isOngoing_eq {a b : Phase} (h : Like a b) : b.isOngoing = a.isOngoing := by
  cases h <;> rfl

theorem Phase.Like.beginsQuietly {a b : Phase} (h : Like a b) (ha : a.BeginsQuietly) :
    b.BeginsQuietly := by
  cases h with
  | refl => exact ha
  | wait => trivial

theorem StartsQuietly.firstFailure {part : Part} (h : StartsQuietly part.listeners) (heard : Heard)
    (deferred : Bool) : firstFailure heard (part.audience .start deferred) = none := by
  refine firstFailure_courteous (fun l hl => ?_) heard
  obtain ⟨hmem, hoccasion⟩ := List.mem_filter.mp hl
  exact h l hmem (of_decide_eq_true (Bool.and_eq_true_iff.mp hoccasion).1)

/-! ## Turns -/

section
variable {r : Performance} {p p' : Player} {phase : Phase}

theorem Continued.part (h : Continued p phase p') : p'.part = p.part := by
  cases h <;> rfl

theorem Acted.part (h : Acted r p phase p') : p'.part = p.part := by
  cases h with
  | begun _ _ h => exact h.part
  | continued _ h => exact h.part
  | _ => rfl

theorem Continued.beginsQuietly (h : Continued p phase p') : phase.BeginsQuietly := by
  cases h with
  | on hplaying => exact Phase.beginsQuietly_of_isPlaying hplaying
  | failed => trivial
  | «over» hconcludes => cases hconcludes <;> trivial

theorem Continued.holds (h : Continued p phase p') (hrunning : p'.running = true) :
    phase.isOngoing = true := by
  cases h with
  | on hplaying => exact Phase.isOngoing_of_isPlaying hplaying
  | failed => cases hrunning
  | «over» => cases hrunning

theorem Acted.beginsQuietly (h : Acted r p phase p') (hquiet : StartsQuietly p.part.listeners)
    (hr : r.phase.BeginsQuietly) : phase.BeginsQuietly := by
  cases h with
  | begins => rfl
  | begun _ _ h => exact h.beginsQuietly
  | continued _ h => exact h.beginsQuietly
  | @tells n next heard hphase =>
    cases next with
    | begin =>
      rw [hphase] at hr
      have hstart : n = .start := hr
      exact hstart ▸ hquiet.firstFailure p.heard true
    | _ => trivial
  | _ => trivial

/-- The step lemma: whenever a run acts, it is ongoing afterwards or its player does not count as
running, unless it had come to its end before and the player is running all the same. -/
theorem Acted.holds (h : Acted r p phase p') (hquiet : StartsQuietly p.part.listeners)
    (hr : r.phase.BeginsQuietly) (hrunning : p'.running = true) :
    phase.isOngoing = true ∨ r.phase.isOngoing = false ∧ p.running = true := by
  cases h with
  | refused _ hfails =>
    rw [hquiet.firstFailure p.heard false] at hfails
    cases hfails
  | begins => exact .inl rfl
  | begun _ _ h => exact .inl (h.holds hrunning)
  | continued _ h => exact .inl (h.holds hrunning)
  | waits => exact .inl rfl
  | @tells n next heard hphase =>
    cases next with
    | finish result => exact .inr ⟨by rw [hphase]; rfl, hrunning⟩
    | _ => exact .inl rfl
  | failed => cases hrunning
  | @spoilt message next hphase hnext =>
    cases next with
    | begin =>
      rw [hphase] at hr
      cases hr
    | proceed left => exact absurd rfl (hnext left)
    | finish result => exact .inr ⟨by rw [hphase]; rfl, hrunning⟩
  | returns hphase | stays hphase => exact .inr ⟨by rw [hphase]; rfl, hrunning⟩

/-- The run is about to be left because a listener of its start fails when it is called next, or has
just failed. -/
def FailsAtStart (r : Performance) (p : Player) : Prop :=
  r.phase = .fresh ∧ (∃ message, firstFailure p.heard (p.part.audience .start false) = some message) ∨
    (∃ message, r.phase = .told (some message) .begin) ∧ p.running = true

theorem Acted.failsAtStart (h : Acted r p phase p') (hfails : FailsAtStart r p) :
    (∃ message, phase = .ended (.error (.listener message))) ∧ p'.running = true := by
  rcases hfails with ⟨hfresh, message, hloud⟩ | ⟨⟨message, htold⟩, hrunning⟩
  · cases h with
    | refused => exact ⟨⟨_, rfl⟩, rfl⟩
    | begins _ hquiet | begun _ hquiet =>
      rw [hloud] at hquiet
      cases hquiet
    | continued hgoes =>
      rw [hfresh] at hgoes
      cases hgoes
    | waits hphase | tells hphase | failed hphase | spoilt hphase | returns hphase
    | stays hphase =>
      rw [hfresh] at hphase
      cases hphase
  · cases h with
    | spoilt => exact ⟨⟨_, rfl⟩, hrunning⟩
    | continued hgoes =>
      rw [htold] at hgoes
      cases hgoes
    | refused hphase | begins hphase | begun hphase | waits hphase | tells hphase | failed hphase
    | returns hphase | stays hphase =>
      rw [htold] at hphase
      cases hphase

end

namespace Stage

/-! ## Players that count as running -/

def Busy (s : Stage) (who : Nat) : Prop :=
  ∃ (i : Nat) (r : Performance), s.runs[i]? = some r ∧ r.player = who ∧ r.phase.isOngoing = true

/-- The player counts as running only if a run of it is ongoing. -/
def Held (s : Stage) (who : Nat) : Prop :=
  ∀ p, s.players[who]? = some p → p.running = true → s.Busy who

/-- Nobody fails at the start of the player's runs. -/
abbrev Quiet (s : Stage) (who : Nat) : Prop :=
  s.Upholds who (fun p => StartsQuietly p.part.listeners) Phase.BeginsQuietly

theorem quiet_lasts {may : List Listener → Prop} (hmay : ∀ ls, may ls → StartsQuietly ls) :
    Lasting may (fun p => StartsQuietly p.part.listeners) Phase.BeginsQuietly where
  acted h hquiet hr := ⟨h.part ▸ hquiet, h.beginsQuietly hquiet hr⟩
  fresh := trivial
  like h ha := h.beginsQuietly ha
  limit {phase} n h := by cases phase <;> exact h
  launched _ _ h := h
  rearranged h hp := by
    rcases h.listeners with hsame | hls
    · exact hsame ▸ hp
    · exact hmay _ hls

section
variable {may : Nat → List Listener → Prop} {s s' s₀ : Stage} {who : Nat}

theorem Busy.passes (h : s.Busy who) (hs : Passes s s') : s'.Busy who := by
  obtain ⟨i, r, hr, hwho, hongoing⟩ := h
  obtain ⟨phase, hr', hlike⟩ := hs.runs i r hr
  exact ⟨i, _, hr', hwho, hlike.isOngoing_eq.trans hongoing⟩

theorem Busy.addRun (h : s.Busy who) (q signal : Nat) : (s.addRun q signal).1.Busy who := by
  obtain ⟨i, r, hr, hwho, hongoing⟩ := h
  exact ⟨i, r, addRun_run hr q signal, hwho, hongoing⟩

theorem Held.passes (h : s.Held who) (hs : Passes s s') : s'.Held who :=
  fun p hp hrunning => (h p (hs.players ▸ hp) hrunning).passes hs

/-- The step lemma for the stage. -/
theorem Held.actRun (h : s.Held who) (hquiet : s.Quiet who) (i : Nat) :
    (s.actRun i).Held who := by
  intro p₁ hp₁ hrunning
  rcases s.actRun_cases i with hsame | ⟨r, p, hhosts, -⟩
  · rw [hsame] at hp₁ ⊢
    exact h p₁ hp₁ hrunning
  obtain ⟨phase, p', ⟨r', hhosts', hplayer, rfl⟩, hacted⟩ := actRun_acted hhosts
  have hbeside := actRun_beside hhosts
  -- Another run that is ongoing stays so.
  have hothers : ∀ j r₀, j ≠ i → s.runs[j]? = some r₀ → r₀.player = who →
      r₀.phase.isOngoing = true → (s.actRun i).Busy who := by
    intro j r₀ hji hr₀ hwho hongoing
    obtain ⟨phase, hr₁, hlike⟩ := hbeside.runs j r₀ hji hr₀
    exact ⟨j, _, hr₁, hwho, hlike.isOngoing_eq.trans hongoing⟩
  by_cases hwho : r.player = who
  · have hp' := hhosts'.player
    rw [hplayer, hwho, hp₁] at hp'
    cases hp'
    have hp : s.players[who]? = some p := hwho ▸ hhosts.player
    rcases hacted.holds (hquiet.player p hp) (hquiet.runs i r hhosts.run hwho) hrunning with
      hongoing | ⟨hleft, hbefore⟩
    · exact ⟨i, r', hhosts'.run, hplayer.trans hwho, hongoing⟩
    · obtain ⟨j, r₀, hr₀, hmine, hongoing⟩ := h p hp hbefore
      refine hothers j r₀ (fun hji => ?_) hr₀ hmine hongoing
      rw [hji, hhosts.run] at hr₀
      cases hr₀
      rw [hleft] at hongoing
      cases hongoing
  · rw [hbeside.players who (Ne.symm hwho)] at hp₁
    obtain ⟨j, r₀, hr₀, hmine, hongoing⟩ := h p₁ hp₁ hrunning
    refine hothers j r₀ (fun hji => ?_) hr₀ hmine hongoing
    rw [hji, hhosts.run] at hr₀
    cases hr₀
    exact hwho hmine

theorem Held.launched (h : s.Held who) (q : Nat) : (s.launched q).Held who := by
  intro p hp hrunning
  obtain ⟨p₀, hp₀, rfl⟩ := of_getElem?_modify hp
  split at hrunning
  · rename_i hq
    exact ⟨s.runs.size, _, addRun_self _ q s.signals, hq, rfl⟩
  · have hsignal : s.newSignal.1.Held who := h.passes (.of_eq rfl rfl rfl)
    exact (hsignal p₀ hp₀ hrunning).addRun q s.signals

/-- The run lemma. -/
theorem Held.unfolds (hmay : ∀ ls, may who ls → StartsQuietly ls) (h₀ : s₀.Held who)
    (hquiet₀ : s₀.Quiet who) (h : Unfolds may s₀ s) : s.Held who := by
  induction h with
  | start => exact h₀
  | @act s hs t ih =>
    by_cases ht : ∃ i, t = .run i
    · obtain ⟨i, rfl⟩ := ht
      exact ih.actRun (hquiet₀.unfolds (quiet_lasts hmay) hs) i
    · exact ih.passes (passes_actThread fun i hi => ht ⟨i, hi⟩)
  | pass _ hs ih => exact ih.passes hs
  | call _ q signal ih => exact fun p hp hrunning => (ih p hp hrunning).addRun q signal
  | @launch s _ q ih =>
    rcases s.startPlayer_cases q with hsame | hlaunched
    · rw [hsame]
      exact ih
    · rw [hlaunched]
      exact (ih.launched q).passes (.of_eq rfl rfl rfl)
  | arrange _ q hf ih =>
    intro p hp hrunning
    obtain ⟨p₀, hp₀, rfl⟩ := of_getElem?_modify hp
    split at hrunning
    · exact ih p₀ hp₀ ((hf p₀).running ▸ hrunning)
    · exact ih p₀ hp₀ hrunning
  | limit _ i n ih =>
    intro p hp hrunning
    obtain ⟨j, r, hr, hwho, hongoing⟩ := ih p hp hrunning
    by_cases hij : j = i
    · subst hij
      refine ⟨j, _, modifyRun_self hr _, hwho, ?_⟩
      show (r.phase.limit n).isOngoing = true
      cases hphase : r.phase <;> rw [hphase] at hongoing <;> exact hongoing
    · exact ⟨j, r, (modifyRun_of_ne hij _).trans hr, hwho, hongoing⟩

end

/-! ## Starting again -/

/-- From `s` to `s'` the player `who` has been started: it counts as running, and a new run of it that
is to begin from the top is ready to act. -/
structure Starts (s : Stage) (who : Nat) (s' : Stage) : Prop where
  player : ∃ p, s'.players[who]? = some p ∧ p.running = true ∧ p.task = some s.runs.size
  run : s'.runs[s.runs.size]? = some { player := who, signal := s.signals }
  ready : s'.ready = s.ready ++ [(0, .run s.runs.size)]

theorem startPlayer_starts {s : Stage} {who : Nat} {p : Player} (hp : s.players[who]? = some p)
    (h : p.running = false) : s.Starts who (s.startPlayer who) := by
  rw [startPlayer_idle hp h]
  have hadded : (s.newSignal.1.addRun who s.signals).1.players[who]? = some p := hp
  exact ⟨⟨_, modifyPlayer_self hadded _, rfl, rfl⟩, addRun_self s.newSignal.1 who s.signals, rfl⟩

theorem Hosts.blocked {s : Stage} {i : Nat} {r : Performance} {p : Player} (h : s.Hosts i r p)
    (hfails : FailsAtStart r p) :
    (∃ message, (s.actRun i).ending? i = some (.error (.listener message))) ∧
      ∃ p', (s.actRun i).players[r.player]? = some p' ∧ p'.running = true := by
  obtain ⟨phase, p', ⟨r', hhosts', hplayer, hphase⟩, hacted⟩ := actRun_acted h
  obtain ⟨⟨message, hended⟩, hrunning⟩ := hacted.failsAtStart hfails
  refine ⟨⟨message, ?_⟩, p', hplayer ▸ hhosts'.player, hrunning⟩
  unfold ending?
  rw [hhosts'.run]
  show r'.phase.ending? = _
  rw [hphase, hended]
  rfl

/-- **A player can be used again unless its run fails at its start.** Whatever it plays, and however
runs, their listeners and their callers take turns, the calls of its caller among them: whichever
listeners fail at whichever of their calls but those of the start, when no run of the player is ongoing
it does not count as running, and starting it starts a new run. A run that fails at its start ends like
any other, but the player counts as running after that, and starting it does nothing. -/
theorem players_are_reusable {program : Program} {router : Router} {listeners : List Listener}
    {spinWait : Bool} {yieldInterval : Int} {p₀ : Player} {who : Nat} {s₀ s : Stage}
    {may : Nat → List Listener → Prop}
    (hcreate : Player.create program router listeners spinWait yieldInterval = .ok p₀)
    (hp₀ : s₀.players[who]? = some p₀) (hruns : s₀.runs = #[]) (h : Unfolds may s₀ s) :
    ((∀ q c fuel, Unfolds may s₀ (s.runPlayer q c fuel).1) ∧
      (∀ q, Unfolds may s₀ (s.startPlayer q)) ∧
      (∀ q fuel, Unfolds may s₀ (s.stopPlayer q fuel).1) ∧
      (∀ c fuel, Unfolds may s₀ (s.runAll c fuel).1) ∧
      ∀ seconds fuel, Unfolds may s₀ (s.sleep seconds fuel)) ∧
    (StartsQuietly listeners → (∀ ls, may who ls → StartsQuietly ls) →
      (∀ (i : Nat) (r : Performance), s.runs[i]? = some r → r.player = who →
        r.phase.isOngoing = false) →
      ∀ p, s.players[who]? = some p → p.running = false ∧ s.Starts who (s.startPlayer who)) ∧
    ∀ (i : Nat) (r : Performance) (p : Player), s.Hosts i r p → FailsAtStart r p →
      (∃ message, (s.actRun i).ending? i = some (.error (.listener message))) ∧
        (∃ p', (s.actRun i).players[r.player]? = some p' ∧ p'.running = true) ∧
        (s.actRun i).startPlayer r.player = s.actRun i := by
  refine ⟨⟨h.runPlayer, h.launch, h.stopPlayer, h.runAll, h.sleep⟩,
    fun hquiet hmay hleft p hp => ?_, fun i r p hhosts hfails => ?_⟩
  · obtain ⟨n, rfl⟩ := create_ok hcreate
    have hquiet₀ : s₀.Quiet who := by
      refine ⟨fun q hq => ?_, fun i r hr => ?_⟩
      · rw [hp₀] at hq
        cases hq
        exact hquiet
      · rw [hruns] at hr
        cases hr
    have hheld₀ : s₀.Held who := by
      intro q hq hrunning
      rw [hp₀] at hq
      cases hq
      cases hrunning
    have hidle : p.running = false := by
      rw [← Bool.not_eq_true]
      intro hrunning
      obtain ⟨i, r, hr, hwho, hongoing⟩ := hheld₀.unfolds hmay hquiet₀ h p hp hrunning
      rw [hleft i r hr hwho] at hongoing
      cases hongoing
    exact ⟨hidle, startPlayer_starts hp hidle⟩
  · obtain ⟨hended, p', hp', hrunning⟩ := hhosts.blocked hfails
    exact ⟨hended, ⟨p', hp', hrunning⟩, startPlayer_running hp' hrunning⟩

def overheard (listeners : List Listener) : Stage where
  rig := { sinks := [("main", .recording)] }
  players := #[{
    machine := Machine.load stranded
    part := { router := { default := some "main" }, listeners := listeners, yieldInterval := 1 } }]

def refusals : List Listener :=
  [⟨"n", .note, true, fun _ => .fail "no"⟩, ⟨"e", .stop, false, fun _ => .fail "no"⟩]

def disturbed : Stage := overheard refusals

/-- Its run fails at the first note. -/
theorem players_are_reusable_disturbed : ∃ s p, disturbed.runPlayer 0 {} 100 = s ∧
    hasFailed 0 s.1 = true ∧ s.1.players[0]? = some p ∧ p.running = false ∧
    s.1.Starts 0 (s.1.startPlayer 0) := by
  have hfailed : hasFailed 0 (disturbed.runPlayer 0 {} 100).1 = true := by decide +kernel
  have hplayers : ((disturbed.runPlayer 0 {} 100).1.players[0]?).isSome = true := by decide +kernel
  have hended : (disturbed.runPlayer 0 {} 100).1.runs.toList.all
      (fun r => !r.phase.isOngoing) = true := by decide +kernel
  have hquiet : StartsQuietly refusals := by
    intro l hl hstart
    simp only [refusals, List.mem_cons, List.not_mem_nil, or_false] at hl
    rcases hl with rfl | rfl <;> cases hstart
  obtain ⟨p, hp⟩ := Option.isSome_iff_exists.mp hplayers
  have hleft : ∀ (i : Nat) (r : Performance), (disturbed.runPlayer 0 {} 100).1.runs[i]? = some r →
      r.player = 0 → r.phase.isOngoing = false := by
    intro i r hr _
    have hmem := List.all_eq_true.mp hended r
      (Array.mem_toList_iff.mpr (Array.mem_of_getElem? hr))
    simpa using hmem
  have hunfolds : Unfolds (fun _ => StartsQuietly) disturbed (disturbed.runPlayer 0 {} 100).1 :=
    Unfolds.start.runPlayer 0 {} 100
  have hcreate : Player.create stranded { default := some "main" } refusals true 1 =
      .ok disturbed.players[0] := rfl
  have hp₀ : disturbed.players[0]? = some disturbed.players[0] := rfl
  have hreusable := players_are_reusable hcreate hp₀ rfl hunfolds
  obtain ⟨hidle, hstarts⟩ := hreusable.2.1 hquiet (fun _ => id) hleft p hp
  exact ⟨_, p, rfl, hfailed, hp, hidle, hstarts⟩

/-- A listener of the start fails. The run is left at once, and its player cannot be started again. -/
theorem start_listener_blocks :
    let s := ((overheard [⟨"s", .start, false, fun _ => .fail "no"⟩]).runPlayer 0 {} 100).1
    hasFailed 0 s = true ∧ (s.players[0]?.map (·.running)) = some true ∧ s.startPlayer 0 = s := by
  have hfailed : hasFailed 0
      ((overheard [⟨"s", .start, false, fun _ => .fail "no"⟩]).runPlayer 0 {} 100).1 = true := by
    decide +kernel
  have hrunning : (((overheard [⟨"s", .start, false, fun _ => .fail "no"⟩]).runPlayer 0 {}
      100).1.players[0]?.map (·.running)) = some true := by decide +kernel
  obtain ⟨p, hp, hp'⟩ := Option.map_eq_some_iff.mp hrunning
  exact ⟨hfailed, hrunning, startPlayer_running hp hp'⟩

end Stage

end Ostinato.Live
