import Ostinato.Proofs.Endings
import Ostinato.Proofs.Neighbours

/-!
# Every interleaving of tracks

`Interleaved` is every way in which tracks can take turns: a run may act whenever it is its turn or
not, and between two turns time may pass, the signal be raised and a run be held to fewer instructions
than it would execute at once. Whichever it is, the sinks are as after a `log` of events of the tracks,
and each track's `share` of it is what its program dispatches by itself (`Plays.interleaved`).
-/

namespace Ostinato.Live

open Machine (load)

/-- A run that is ready for some instructions is ready for `n` instead. -/
def Phase.limit (n : Nat) : Phase → Phase
  | .active _ => .active n
  | phase => phase

namespace Stage

/-- From now on a track gives way after `n` instructions at the latest. -/
def limit (s : Stage) (i n : Nat) : Stage :=
  (s.modifyPlayer i fun p => { p with part := { p.part with yieldInterval := n } }).modifyRun i
    fun r => { r with phase := r.phase.limit n }

/-- What can become of a stage. Anybody acts, whether it is their turn or not; time passes and signals
are raised; and a track is made to give way after any number of instructions. -/
inductive Interleaved (s₀ : Stage) : Stage → Prop where
  | start : Interleaved s₀ s₀
  | act {s : Stage} (h : Interleaved s₀ s) (t : Thread) : Interleaved s₀ (s.actThread t)
  | pass {s s' : Stage} (h : Interleaved s₀ s) (hs : Passes s s') : Interleaved s₀ s'
  | limit {s : Stage} (h : Interleaved s₀ s) (i n : Nat) : Interleaved s₀ (s.limit i n)

def sideBySide (s : Stage) : Stage :=
  (s.newSignal.1.addRuns s.newSignal.2 (List.range s.players.size)).1

end Stage

/-- The sinks after an event of a track, which goes through the track's own router. -/
def relay (tracks : List (Program × Router)) (sinks : Sinks) (x : Nat × Event) : Sinks :=
  match tracks[x.1]? with
  | some (_, router) => (router.post sinks x.2).1
  | none => sinks

/-- The sinks after some events, each with the track that dispatches it. -/
def replay (tracks : List (Program × Router)) (sinks : Sinks) (log : List (Nat × Event)) : Sinks :=
  log.foldl (relay tracks) sinks

def share (i : Nat) (log : List (Nat × Event)) : List Event :=
  log.filterMap fun x => if x.1 = i then some x.2 else none

section
variable {tracks : List (Program × Router)} {sinks : Sinks} {log : List (Nat × Event)} {i j : Nat}

theorem share_append (i : Nat) (log more : List (Nat × Event)) :
    share i (log ++ more) = share i log ++ share i more := List.filterMap_append

theorem share_own (i : Nat) (es : List Event) : share i (es.map (i, ·)) = es := by
  induction es with
  | nil => rfl
  | cons e es ih => simp [share] at ih ⊢

theorem share_other (h : j ≠ i) (es : List Event) : share j (es.map (i, ·)) = [] := by
  simp [share, Ne.symm h]

theorem replay_own {program : Program} {router : Router} (h : tracks[i]? = some (program, router))
    (es : List Event) :
    replay tracks sinks (log ++ es.map (i, ·)) =
      (router.books (replay tracks sinks log) es).sinks := by
  induction es using List.reverseRecOn with
  | nil => rw [List.map_nil, List.append_nil]; rfl
  | append_singleton es e ih =>
    have hrelay : relay tracks (router.books (replay tracks sinks log) es).sinks (i, e) =
        (router.post (router.books (replay tracks sinks log) es).sinks e).1 := by
      rw [relay, h]
    rw [List.map_append, ← List.append_assoc, books_concat, Books.enter_sinks, ← hrelay, ← ih]
    exact List.foldl_append

end

namespace Stage

/-- All tracks stand as their phases say, and the sinks hold what they have dispatched. -/
structure Plays (tracks : List (Program × Router)) (sinks : Sinks) (s : Stage)
    (log : List (Nat × Event)) : Prop where
  size : s.runs.size = tracks.length
  reliable : s.rig.sinks.Reliable
  replayed : s.rig.sinks = replay tracks sinks log
  track : ∀ i program router, tracks[i]? = some (program, router) →
    s.Track i ⟨program, router, sinks⟩ (share i log)

section
variable {tracks : List (Program × Router)} {sinks : Sinks} {s s' : Stage}
  {log : List (Nat × Event)}

theorem Plays.passes (h : Plays tracks sinks s log) (hs : Passes s s') :
    Plays tracks sinks s' log where
  size := hs.size.trans h.size
  reliable := hs.rig ▸ h.reliable
  replayed := hs.rig ▸ h.replayed
  track i program router ht := (h.track i program router ht).passes hs

/-- The step lemma: one track goes on, and the others stand as they did. -/
theorem Plays.actRun (hsure : sinks.Reliable) (h : Plays tracks sinks s log) (i : Nat) :
    ∃ log', Plays tracks sinks (s.actRun i) log' := by
  rcases Nat.lt_or_ge i tracks.length with hi | hi
  · obtain ⟨⟨program, router⟩, hi⟩ : ∃ t, tracks[i]? = some t := ⟨_, List.getElem?_eq_getElem hi⟩
    obtain ⟨es, hgoes⟩ := actRun_goes hsure h.reliable (h.track i program router hi)
    have hsinks := hgoes.sinks
    refine ⟨log ++ es.map (i, ·), hgoes.apart.size.trans h.size, ?_, ?_,
      fun j program' router' hj => ?_⟩
    · rw [hsinks]
      exact books_reliable h.reliable hgoes.inRange
    · rw [hsinks, replay_own hi, h.replayed]
    · rw [share_append]
      by_cases hji : j = i
      · subst hji
        rw [hi] at hj
        cases hj
        rw [share_own]
        exact hgoes.track
      · rw [share_other hji, List.append_nil]
        exact hgoes.apart.others j _ _ hji (h.track j program' router' hj)
  · refine ⟨log, ?_⟩
    have hnone : s.runs[i]? = none := Array.getElem?_eq_none (h.size ▸ hi)
    unfold Stage.actRun
    rw [hnone]
    exact h

theorem Plays.limit (h : Plays tracks sinks s log) (i n : Nat) :
    Plays tracks sinks (s.limit i n) log := by
  have hapart : Apart i s (s.limit i n) :=
    (s.apart_modifyPlayer i _).trans (apart_modifyRun _ i _)
  refine ⟨hapart.size.trans h.size, h.reliable, h.replayed, fun j program router hj => ?_⟩
  have htrack := h.track j program router hj
  by_cases hji : j = i
  · subst hji
    obtain ⟨r, p, hseat, hshares⟩ := htrack
    refine ⟨{ r with phase := r.phase.limit n },
      { p with part := { p.part with yieldInterval := n } },
      ⟨modifyRun_self hseat.run _, modifyPlayer_self hseat.player _, hseat.own, hseat.router,
        hseat.deaf⟩, ?_⟩
    cases hphase : r.phase <;> rw [hphase] at hshares <;> exact hshares
  · exact hapart.others j _ _ hji htrack

/-- The run lemma. -/
theorem Plays.interleaved (hsure : sinks.Reliable) {s₀ : Stage} (h₀ : Plays tracks sinks s₀ [])
    (h : Interleaved s₀ s) : ∃ log, Plays tracks sinks s log := by
  induction h with
  | start => exact ⟨[], h₀⟩
  | @act s _ t ih =>
    obtain ⟨log, hplays⟩ := ih
    by_cases ht : ∃ i, t = .run i
    · obtain ⟨i, rfl⟩ := ht
      exact hplays.actRun hsure i
    · exact ⟨log, hplays.passes (passes_actThread fun i hi => ht ⟨i, hi⟩)⟩
  | pass _ hs ih =>
    obtain ⟨log, hplays⟩ := ih
    exact ⟨log, hplays.passes hs⟩
  | limit _ i n ih =>
    obtain ⟨log, hplays⟩ := ih
    exact ⟨log, hplays.limit i n⟩

end

/-! ## Players side by side -/

section
variable {s₀ : Stage}

theorem addRuns_eq (s : Stage) (signal : Nat) (who : List Nat) :
    (s.addRuns signal who).1.rig = s.rig ∧ (s.addRuns signal who).1.players = s.players ∧
      (s.addRuns signal who).1.runs.toList =
        s.runs.toList ++ who.map (fun i => { player := i, signal := signal }) ∧
      (s.addRuns signal who).2 = List.range' s.runs.size who.length := by
  induction who generalizing s with
  | nil => exact ⟨rfl, rfl, (List.append_nil _).symm, rfl⟩
  | cons i who ih =>
    obtain ⟨hrig, hplayers, hruns, hindices⟩ := ih ((s.addRun i signal).1.enqueue 0 (.run s.runs.size))
    refine ⟨hrig, hplayers, ?_, ?_⟩
    · refine hruns.trans ?_
      show (s.runs.push _).toList ++ _ = _
      rw [Array.toList_push, List.append_assoc]
      rfl
    · refine (congrArg (s.runs.size :: ·) hindices).trans ?_
      show s.runs.size :: List.range' (s.runs.push _).size who.length = _
      rw [Array.size_push]
      rfl

theorem sideBySide_runs (hruns : s₀.runs = #[]) : s₀.sideBySide.runs.toList =
    (List.range s₀.players.size).map fun i => { player := i, signal := s₀.signals } := by
  obtain ⟨-, -, hadded, -⟩ :=
    s₀.newSignal.1.addRuns_eq s₀.newSignal.2 (List.range s₀.players.size)
  have hnone : s₀.newSignal.1.runs.toList = [] := congrArg Array.toList hruns
  rw [hnone, List.nil_append] at hadded
  exact hadded

/-- Running all players is one way in which they can take turns. -/
theorem runAll_interleaved (hruns : s₀.runs = #[]) (c : Cancellation) (fuel : Nat) :
    Interleaved s₀.sideBySide (s₀.runAll c fuel).1 ∧
      (s₀.runAll c fuel).2 =
        (List.range s₀.players.size).map (s₀.runAll c fuel).1.ending? := by
  have hidle : s₀.newSignal.1.Idle := by
    intro i r hr
    rw [show s₀.newSignal.1.runs = #[] from hruns] at hr
    cases hr
  have hbare : Bare s₀ s₀.newSignal.1 := ⟨hidle, rfl, rfl, rfl⟩
  have hready := ((hbare.raiseIf s₀.newSignal.2 c.beforehand).raiseAfter s₀.newSignal.2
    c.after).raiseAtYield s₀.newSignal.2 c.atYield
  unfold runAll
  dsimp only
  generalize ((s₀.newSignal.1.raiseIf s₀.newSignal.2 c.beforehand).raiseAfter s₀.newSignal.2
    c.after).raiseAtYield s₀.newSignal.2 c.atYield = s at hready ⊢
  rw [show s.players.size = s₀.players.size from congrArg Array.size hready.players]
  obtain ⟨hrig, hplayers, hadded, hindices⟩ :=
    s.addRuns_eq s₀.newSignal.2 (List.range s₀.players.size)
  obtain ⟨hrig', hplayers', hadded', -⟩ :=
    s₀.newSignal.1.addRuns_eq s₀.newSignal.2 (List.range s₀.players.size)
  have hpasses : Passes s₀.sideBySide (s.addRuns s₀.newSignal.2 (List.range s₀.players.size)).1 :=
    .of_eq (hrig.trans (hready.rig.trans hrig'.symm))
      (hplayers.trans (hready.players.trans hplayers'.symm))
      (Array.toList_inj.mp (hadded.trans (hready.runs ▸ hadded'.symm)))
  rw [hready.runs, hruns, List.length_range, Array.size_empty, ← List.range_eq_range'] at hindices
  rw [hindices]
  exact ⟨goUntil_induct (fun _ _ h hs => .pass h hs) (fun _ t h => .act h t)
    (Interleaved.start.pass hpasses) _ fuel, rfl⟩

end

section
variable {tracks : List (Program × Router)} {spinWait : Bool} {yieldInterval : Int}
  {players : List Player} {s₀ : Stage}

theorem forall₂_of_mapM {ε α β : Type} {f : α → Except ε β} {as : List α} {bs : List β}
    (h : as.mapM f = .ok bs) : List.Forall₂ (fun a b => f a = .ok b) as bs := by
  induction as generalizing bs with
  | nil =>
    cases h
    exact .nil
  | cons a as ih =>
    rw [List.mapM_cons] at h
    cases ha : f a with
    | error e =>
      rw [ha] at h
      cases h
    | ok b =>
      rw [ha] at h
      cases has : as.mapM f with
      | error e =>
        rw [has] at h
        cases h
      | ok bs' =>
        rw [has] at h
        cases h
        exact .cons ha (ih has)

theorem create_ok {program : Program} {router : Router} {listeners : List Listener} {p : Player}
    (h : Player.create program router listeners spinWait yieldInterval = .ok p) :
    ∃ n, p = {
      machine := load program
      part := { router := router, listeners := listeners, yieldInterval := n }
      spinWait := spinWait } := by
  unfold Player.create at h
  split at h
  · cases h
  · exact ⟨_, (Except.ok.inj h).symm⟩

theorem sideBySide_plays
    (hplayers : tracks.mapM (fun t => Player.create t.1 t.2 [] spinWait yieldInterval) = .ok players)
    (hp : s₀.players = players.toArray) (hruns : s₀.runs = #[]) (hsure : s₀.rig.sinks.Reliable) :
    Plays tracks s₀.rig.sinks s₀.sideBySide [] := by
  obtain ⟨hrig, hkept, hadded, -⟩ :=
    s₀.newSignal.1.addRuns_eq s₀.newSignal.2 (List.range s₀.players.size)
  have hcreated := forall₂_of_mapM hplayers
  have hcount : s₀.players.size = players.length := by rw [hp, List.size_toArray]
  have hadded := sideBySide_runs hruns
  refine ⟨?_, ?_, congrArg Rig.sinks hrig, fun i program router ht => ?_⟩
  · rw [← Array.length_toList, hadded, List.length_map, List.length_range, hcount,
      hcreated.length_eq]
  · rw [show s₀.sideBySide.rig = s₀.rig from hrig]
    exact hsure
  · obtain ⟨hi, ht⟩ := List.getElem?_eq_some_iff.mp ht
    have hi' : i < players.length := hcreated.length_eq ▸ hi
    obtain ⟨n, hplayer⟩ := create_ok (hcreated.get hi hi')
    refine ⟨{ player := i, signal := s₀.signals }, players.get ⟨i, hi'⟩, ⟨?_, ?_, rfl, ?_, ?_⟩, ?_,
      rfl⟩
    · rw [← Array.getElem?_toList, hadded, List.getElem?_map, hcount, List.getElem?_range hi']
      rfl
    · rw [show s₀.sideBySide.players = s₀.players from hkept, hp, List.getElem?_toArray]
      exact List.getElem?_eq_getElem hi'
    · rw [hplayer]
      exact congrArg Prod.snd ht
    · rw [hplayer]
    · show (players.get ⟨i, hi'⟩).machine.program = program
      rw [hplayer]
      exact congrArg Prod.fst ht

/-- **Tracks do not interfere.** Tracks may share programs, routers and sinks that do not fail. However
they take turns and whenever they are cancelled, what each has dispatched is a prefix of what its
program dispatches by itself, and nothing else unless it has ended. Then it has come to the same result
as its program by itself, cancelled after as many instructions if the track was; if it halted or
faulted it has dispatched everything; and what it released are its own notes. -/
theorem tracks_keep_apart
    (hplayers : tracks.mapM (fun t => Player.create t.1 t.2 [] spinWait yieldInterval) = .ok players)
    (hp : s₀.players = players.toArray) (hruns : s₀.runs = #[]) (hsure : s₀.rig.sinks.Reliable) :
    (∀ c fuel, Interleaved s₀.sideBySide (s₀.runAll c fuel).1 ∧
      (s₀.runAll c fuel).2 = (List.range tracks.length).map (s₀.runAll c fuel).1.ending?) ∧
    ∀ s, Interleaved s₀.sideBySide s → ∃ log, s.rig.sinks = replay tracks s₀.rig.sinks log ∧
      ∀ i program router, tracks[i]? = some (program, router) →
        ∃ n released, share i log = (load program).emitted n ++ released ∧
          (∀ k, n ≤ k → (load program).emitted n <+: (load program).emitted k) ∧
          (s.ending? i = none → released = []) ∧
          ∀ e, s.ending? i = some e →
            Outset.Matches ⟨program, router, s₀.rig.sinks⟩ n released e := by
  have hplays := sideBySide_plays hplayers hp hruns hsure
  have hcount : s₀.players.size = tracks.length := by
    rw [hp, List.size_toArray, (forall₂_of_mapM hplayers).length_eq]
  refine ⟨fun c fuel => hcount ▸ runAll_interleaved hruns c fuel, fun s hs => ?_⟩
  obtain ⟨log, hlog⟩ := hplays.interleaved hsure hs
  refine ⟨log, hlog.replayed, fun i program router ht => ?_⟩
  obtain ⟨r, p, hseat, hshares⟩ := hlog.track i program router ht
  have hending : s.ending? i = r.phase.ending? := by
    unfold ending?
    rw [hseat.run]
    rfl
  obtain ⟨n, released, hsent, hquiet, hmatches⟩ := hshares.performed
  rw [hending]
  exact ⟨n, released, hsent, fun k hk => (load program).emitted_mono hk, hquiet, hmatches⟩

end

def duet : Stage where
  rig := { sinks := [("main", .recording)] }
  players := (List.replicate 2 {
    machine := load stranded
    part := { router := { default := some "main" }, yieldInterval := 1 } }).toArray

/-- Both are cancelled after their first note, and each releases its own. -/
theorem tracks_keep_apart_duet : ∃ (s : Stage) (r r' : RunResult) (log : List (Nat × Event)),
    duet.runAll { atYield := some 2 } 100 = (s, [some (.ok r), some (.ok r')]) ∧
      r.state = .cancelled ∧ r'.state = .cancelled ∧
      s.rig.sinks = replay (List.replicate 2 (stranded, { default := some "main" }))
        duet.rig.sinks log ∧
      ∃ n released, share 1 log = (load stranded).emitted n ++ released ∧
        Outset.Matches ⟨stranded, { default := some "main" }, duet.rig.sinks⟩ n released
          (.ok r') := by
  have hsure : duet.rig.sinks.Reliable := List.forall_mem_singleton.mpr fun _ _ => rfl
  obtain ⟨hruns, hall⟩ := @tracks_keep_apart
    (List.replicate 2 (stranded, { default := some "main" })) true 1 _ duet rfl rfl rfl hsure
  obtain ⟨hinterleaved, hresults⟩ := hruns { atYield := some 2 } 100
  have hstates : (duet.runAll { atYield := some 2 } 100).2.map
      (fun e => (Live.answer? e).map (·.state)) = [some .cancelled, some .cancelled] := by
    decide +kernel
  generalize duet.runAll { atYield := some 2 } 100 = x at hinterleaved hresults hstates ⊢
  obtain ⟨s, endings⟩ := x
  obtain ⟨e, rest, rfl, he, hrest⟩ := List.map_eq_cons_iff.mp hstates
  obtain ⟨e', rest, rfl, he', hrest⟩ := List.map_eq_cons_iff.mp hrest
  cases List.map_eq_nil_iff.mp hrest
  obtain ⟨r, hr, hcancelled⟩ := Option.map_eq_some_iff.mp he
  obtain ⟨r', hr', hcancelled'⟩ := Option.map_eq_some_iff.mp he'
  cases Live.eq_of_answer? (x := (s, e)) hr
  cases Live.eq_of_answer? (x := (s, e')) hr'
  obtain ⟨-, hlast⟩ := List.cons.inj hresults
  obtain ⟨hlast, -⟩ := List.cons.inj hlast
  obtain ⟨log, hsinks, hshares⟩ := hall s hinterleaved
  obtain ⟨n, released, hshare, -, -, hmatches⟩ := hshares 1 _ _ rfl
  exact ⟨s, r, r', log, rfl, hcancelled, hcancelled', hsinks, n, released, hshare,
    hmatches _ hlast.symm⟩

end Stage

end Ostinato.Live
