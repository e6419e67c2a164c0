import Ostinato.Emitter
import Ostinato.Proofs.Stopping

/-!
# Listeners are callbacks

A run tells its listeners of a notice as the emitter tells the callbacks of an event: the plain ones
first, up to the first that fails, and if none has, all deferred ones, of whose failures the first
counts. `emissions_agree` says that the run's own account of it, which knows nothing of rounds and
registrations, comes to the same: the same listeners are called in the same order, with the same failure.
-/

namespace Ostinato

namespace Emitter

def Mark.called? : Mark → Option String
  | called id => some id
  | began _ => none

/-- The callbacks called so far, in order. -/
def State.called (s : State) : List String :=
  s.marks.reverse.filterMap Mark.called?

theorem State.called_began (s : State) (id : String) :
    { s with marks := .began id :: s.marks }.called = s.called := by
  unfold called
  rw [List.reverse_cons, List.filterMap_append]
  exact List.append_nil _

theorem State.called_called (s : State) (id : String) :
    { s with marks := .called id :: s.marks }.called = s.called ++ [id] := by
  unfold called
  rw [List.reverse_cons, List.filterMap_append]
  rfl

theorem le_foldl_max {α : Type} (f : α → Nat) (xs : List α) (n : Nat) :
    n ≤ xs.foldl (fun n x => max n (f x)) n ∧
      ∀ x ∈ xs, f x ≤ xs.foldl (fun n x => max n (f x)) n := by
  induction xs generalizing n with
  | nil => exact ⟨Nat.le_refl n, fun x hx => by cases hx⟩
  | cons y rest ih =>
    obtain ⟨hstart, hrest⟩ := ih (max n (f y))
    refine ⟨Nat.le_trans (Nat.le_max_left ..) hstart, fun x hx => ?_⟩
    rcases List.mem_cons.mp hx with rfl | hx
    · exact Nat.le_trans (Nat.le_max_right ..) hstart
    · exact hrest x hx

theorem lt_roundBound (cs : Callbacks) {ids : List String} {id : String} (h : id ∈ ids) :
    (cs id).deferred.getD 0 < roundBound cs ids :=
  (le_foldl_max (fun id => (cs id).deferred.getD 0 + 1) ids 0).2 id h

theorem lastRounds_nil (cs : Callbacks) (n : Nat) (s : State) : lastRounds cs n s [] = s := by
  induction n with
  | zero => rfl
  | succ n ih => exact ih

theorem rounds_succ {cs : Callbacks} {s : State} {pending : List Pending} (h : pending ≠ [])
    (fuel : Nat) : rounds cs (fuel + 1) s pending =
      match round cs s none pending with
      | (s, none, pending) => rounds cs fuel s pending
      | (s, some f, pending) => (lastRounds cs roundsAfterFailure s pending, some f) := by
  cases pending with
  | nil => exact absurd rfl h
  | cons => rfl

end Emitter

namespace Live

open Emitter (Callbacks State work callPlain emitAsync)

theorem Heard.lookup_filter {counts : List (String × Nat)} {id other : String} (h : other ≠ id) :
    (counts.filter fun c => c.1 != id).lookup other = counts.lookup other := by
  induction counts with
  | nil => rfl
  | cons c rest ih =>
    obtain ⟨key, n⟩ := c
    by_cases hkey : key = id
    · subst hkey
      rw [List.filter_cons_of_neg (by simp), ih, List.lookup_cons, beq_false_of_ne h]
    · rw [List.filter_cons_of_pos (by simpa using hkey), List.lookup_cons, List.lookup_cons, ih]

theorem Heard.count_add_of_ne {id other : String} (h : other ≠ id) (heard : Heard) :
    (heard.add id).count other = heard.count other := by
  unfold count add
  rw [List.lookup_cons, beq_false_of_ne h, lookup_filter h]

theorem Listener.next_foldl {l : Listener} {ids : List String} (h : l.id ∉ ids) (heard : Heard) :
    l.next (ids.foldl Heard.add heard) = l.next heard := by
  induction ids generalizing heard with
  | nil => rfl
  | cons id rest ih =>
    obtain ⟨hid, hrest⟩ := not_or.mp (mt List.mem_cons.mpr h)
    rw [List.foldl_cons, ih hrest, next, Heard.count_add_of_ne hid, next]

/-- Callbacks that behave as listeners do when they are called next. The deferred ones give way equally
often. -/
structure Answers (cs : Callbacks) (turns : Nat) (heard : Heard) (ls : List Listener) : Prop where
  nodup : (ls.map (·.id)).Nodup
  deferred : ∀ l ∈ ls, (cs l.id).deferred = if l.deferred then some turns else none
  changes : ∀ l ∈ ls, (cs l.id).changes = []
  fails : ∀ l ∈ ls, (cs l.id).fails = (l.next heard).failure?

/-- From `s` to `s'` and from `a` to `a'` the same listeners have been called, in the same order. -/
structure Alike (s s' : State) (a a' : Act) (ids : List String) : Prop where
  registry : s'.registry = s.registry
  called : s'.called = s.called ++ ids
  heard : a'.heard = ids.foldl Heard.add a.heard

section
variable {cs : Callbacks} {turns : Nat} {heard : Heard} {ls : List Listener} {l : Listener}
  {s s' s'' : State} {a a' a'' : Act} {ids ids' : List String} {part : Part} {n : Notice}

theorem Answers.sublist {ls' : List Listener} (h : Answers cs turns heard ls) (hls : ls'.Sublist ls) :
    Answers cs turns heard ls' where
  nodup := h.nodup.sublist (hls.map _)
  deferred l hl := h.deferred l (hls.subset hl)
  changes l hl := h.changes l (hls.subset hl)
  fails l hl := h.fails l (hls.subset hl)

/-- Calls of others make no difference to them. -/
theorem Answers.later (h : Answers cs turns heard ls) (hids : ∀ l ∈ ls, l.id ∉ ids) :
    Answers cs turns (ids.foldl Heard.add heard) ls where
  nodup := h.nodup
  deferred := h.deferred
  changes := h.changes
  fails l hl := by rw [h.fails l hl, l.next_foldl (hids l hl)]

theorem Answers.tail (h : Answers cs turns heard (l :: ls)) :
    Answers cs turns (heard.add l.id) ls := by
  have hnodup : ∀ l' ∈ ls, l'.id ∉ [l.id] := fun l' hl' hid =>
    (List.nodup_cons.mp h.nodup).1 (List.mem_map.mpr ⟨l', hl', List.mem_singleton.mp hid⟩)
  exact (h.sublist (List.sublist_cons_self l ls)).later hnodup

theorem Alike.refl (s : State) (a : Act) : Alike s s a a [] :=
  ⟨rfl, (List.append_nil _).symm, rfl⟩

theorem Alike.trans (h : Alike s s' a a' ids) (h' : Alike s' s'' a' a'' ids') :
    Alike s s'' a a'' (ids ++ ids') where
  registry := h'.registry.trans h.registry
  called := by rw [h'.called, h.called, List.append_assoc]
  heard := by rw [h'.heard, h.heard, List.foldl_append]

/-- Marks that a callback has begun count for nothing. -/
theorem Alike.began (h : Alike s s' a a' ids) {t : State} (hregistry : t.registry = s.registry)
    (hcalled : t.called = s.called) : Alike t s' a a' ids :=
  ⟨h.registry.trans hregistry.symm, hcalled ▸ h.called, h.heard⟩

/-! ## One call -/

theorem Answers.work (h : Answers cs turns a.heard (l :: ls)) (s : State) (n : Notice) :
    Alike s (work s l.id (cs l.id)).1 a (a.call l n).1 [l.id] ∧
      (work s l.id (cs l.id)).2 = (a.call l n).2.map .callback := by
  have hchanges := h.changes l List.mem_cons_self
  have hfails := h.fails l List.mem_cons_self
  unfold Emitter.work
  rw [hchanges, hfails, Act.call_failure]
  exact ⟨⟨rfl, s.called_called l.id, Act.call_heard a l n⟩, rfl⟩

/-! ## Plain listeners -/

/-- Up to the first failure the same ones are called. If there is none, all of them are. -/
theorem callPlain_alike (h : Answers cs turns a.heard ls) (s : State) (n : Notice) :
    (callPlain cs s (ls.map (·.id))).2 = (a.callUntilFailure n ls).2.map .callback ∧
      ∃ ids, Alike s (callPlain cs s (ls.map (·.id))).1 a (a.callUntilFailure n ls).1 ids ∧
        ((a.callUntilFailure n ls).2 = none → ids = ls.map (·.id)) := by
  induction ls generalizing s a with
  | nil => exact ⟨rfl, [], Alike.refl s a, fun _ => rfl⟩
  | cons l rest ih =>
    obtain ⟨halike, hfails⟩ := h.work s n
    have htail := h.tail
    rw [← Act.call_heard a l n] at htail
    rw [List.map_cons, callPlain, Act.callUntilFailure]
    rcases hwork : work s l.id (cs l.id) with ⟨s', failure⟩
    rcases hcall : a.call l n with ⟨b, _ | message⟩
    · rw [hwork, hcall] at halike hfails
      rw [hcall] at htail
      subst hfails
      obtain ⟨hlater, ids, hrest, hall⟩ := ih htail s'
      exact ⟨hlater, l.id :: ids, halike.trans hrest, fun hnone => congrArg _ (hall hnone)⟩
    · rw [hwork, hcall] at halike hfails
      subst hfails
      exact ⟨rfl, [l.id], halike, fun hnone => by cases hnone⟩

/-! ## Deferred listeners -/

/-- In a round in which nobody is done, all give way once. -/
theorem round_waits {left : Option Nat} {k : Nat} (hleft : left.getD turns = k + 1)
    (hdeferred : ∀ l ∈ ls, (cs l.id).deferred = some turns) (s : State) (first : Option Emitter.Fault) :
    ∃ t : State, Emitter.round cs s first (ls.map fun l => ⟨l.id, left⟩) =
        (t, first, ls.map fun l => ⟨l.id, some k⟩) ∧
      t.registry = s.registry ∧ t.called = s.called := by
  induction ls generalizing s with
  | nil => exact ⟨s, rfl, rfl, rfl⟩
  | cons l rest ih =>
    obtain ⟨hl, hrest⟩ := List.forall_mem_cons.mp hdeferred
    rw [List.map_cons, Emitter.round]
    dsimp only
    rw [hl, Option.getD_some, hleft]
    cases left with
    | none =>
      obtain ⟨t, ht, hregistry, hcalled⟩ := ih hrest { s with marks := .began l.id :: s.marks }
      refine ⟨t, ?_, hregistry, hcalled.trans (s.called_began l.id)⟩
      dsimp only
      rw [ht]
      rfl
    | some left =>
      obtain ⟨t, ht, hregistry, hcalled⟩ := ih hrest s
      refine ⟨t, ?_, hregistry, hcalled⟩
      dsimp only
      rw [ht]
      rfl

theorem round_works {left : Option Nat} (hleft : left.getD turns = 0)
    (hdeferred : ∀ l ∈ ls, (cs l.id).deferred = some turns) (h : Answers cs turns a.heard ls)
    (s : State) (first : Option String) (n : Notice) :
    ∃ t : State, Emitter.round cs s (first.map .callback) (ls.map fun l => ⟨l.id, left⟩) =
        (t, (first.or (a.callAll n ls).2).map .callback, []) ∧
      Alike s t a (a.callAll n ls).1 (ls.map (·.id)) := by
  induction ls generalizing s a first with
  | nil => exact ⟨s, by rw [Act.callAll, Option.or_none]; rfl, Alike.refl s a⟩
  | cons l rest ih =>
    obtain ⟨hl, hrest⟩ := List.forall_mem_cons.mp hdeferred
    have htail := h.tail
    rw [← Act.call_heard a l n] at htail
    have hgoes : ∀ s₁ : State, s₁.registry = s.registry → s₁.called = s.called →
        ∃ t : State, Emitter.round cs (work s₁ l.id (cs l.id)).1
            ((first.map .callback).or (work s₁ l.id (cs l.id)).2)
            (rest.map fun l => ⟨l.id, left⟩) =
          (t, (first.or (a.callAll n (l :: rest)).2).map .callback, []) ∧
          Alike s t a (a.callAll n (l :: rest)).1 ((l :: rest).map (·.id)) := by
      intro s₁ hregistry hcalled
      obtain ⟨halike, hfails⟩ := h.work s₁ n
      obtain ⟨t, ht, hlater⟩ := ih hrest htail (work s₁ l.id (cs l.id)).1 (first.or (a.call l n).2)
      refine ⟨t, ?_, (halike.trans hlater).began hregistry.symm hcalled.symm⟩
      rw [hfails, ← Option.map_or, ht, Option.or_assoc]
      rfl
    rw [List.map_cons, Emitter.round]
    dsimp only
    rw [hl, Option.getD_some, hleft]
    cases left with
    | none => exact hgoes { s with marks := .began l.id :: s.marks } rfl (s.called_began l.id)
    | some left => exact hgoes s rfl rfl

/-- By induction on the turns that are left. -/
theorem rounds_alike (hdeferred : ∀ l ∈ ls, (cs l.id).deferred = some turns)
    (h : Answers cs turns a.heard ls) (left : Option Nat) {k fuel : Nat}
    (hleft : left.getD turns = k) (hfuel : ls ≠ [] → k < fuel) (s : State) (n : Notice) :
    (Emitter.rounds cs fuel s (ls.map fun l => ⟨l.id, left⟩)).2 =
        (a.callAll n ls).2.map .callback ∧
      Alike s (Emitter.rounds cs fuel s (ls.map fun l => ⟨l.id, left⟩)).1 a (a.callAll n ls).1
        (ls.map (·.id)) := by
  by_cases hls : ls = []
  · subst hls
    cases fuel <;> exact ⟨rfl, Alike.refl s a⟩
  obtain ⟨fuel, rfl⟩ : ∃ f, fuel = f + 1 := ⟨fuel - 1, by have := hfuel hls; omega⟩
  have hstarted : ls.map (fun l => (⟨l.id, left⟩ : Emitter.Pending)) ≠ [] := by simpa using hls
  induction k generalizing left fuel s with
  | zero =>
    obtain ⟨t, ht, halike⟩ := round_works hleft hdeferred h s none n
    rw [Option.map_none, Option.none_or] at ht
    rw [Emitter.rounds_succ hstarted, ht]
    cases (a.callAll n ls).2 with
    | none => cases fuel <;> exact ⟨rfl, halike⟩
    | some message =>
      dsimp only [Option.map_some]
      rw [Emitter.lastRounds_nil]
      exact ⟨rfl, halike⟩
  | succ k ih =>
    obtain ⟨t, ht, hregistry, hcalled⟩ := round_waits hleft hdeferred s none
    have hpending : ls.map (fun l => (⟨l.id, some k⟩ : Emitter.Pending)) ≠ [] := by simpa using hls
    obtain ⟨fuel, rfl⟩ : ∃ f, fuel = f + 1 := ⟨fuel - 1, by have := hfuel hls; omega⟩
    have hlater := ih (some k) rfl t fuel (fun _ => by have := hfuel hls; omega) hpending
    rw [Emitter.rounds_succ hstarted, ht]
    exact ⟨hlater.1, hlater.2.began hregistry.symm hcalled.symm⟩

/-! ## Emissions -/

def Part.hearers (part : Part) (n : Notice) : List Listener :=
  part.listeners.filter fun l => l.occasion = n.occasion

theorem Part.audience_eq (part : Part) (n : Notice) (deferred : Bool) :
    part.audience n deferred = (part.hearers n).filter fun l => l.deferred == deferred := by
  rw [audience, hearers, List.filter_filter]
  exact List.filter_congr fun l _ => Bool.and_comm ..

theorem Answers.audience (h : Answers cs turns heard (part.hearers n)) (deferred : Bool) :
    Answers cs turns heard (part.audience n deferred) :=
  part.audience_eq n deferred ▸ h.sublist List.filter_sublist

theorem Answers.ids_audience (h : Answers cs turns heard (part.hearers n)) (deferred : Bool) :
    ((part.hearers n).map (·.id)).filter (fun id => (cs id).deferred.isSome == deferred) =
      (part.audience n deferred).map (·.id) := by
  rw [List.filter_map, part.audience_eq]
  congr 1
  refine List.filter_congr fun l hl => ?_
  rw [Function.comp_apply, h.deferred l hl]
  cases l.deferred <;> rfl

theorem Answers.ids_plain (h : Answers cs turns heard (part.hearers n)) :
    ((part.hearers n).map (·.id)).filter (fun id => (cs id).deferred.isNone) =
      (part.audience n false).map (·.id) := by
  rw [← h.ids_audience]
  exact List.filter_congr fun id _ => by cases (cs id).deferred <;> rfl

theorem Answers.ids_deferred (h : Answers cs turns heard (part.hearers n)) :
    ((part.hearers n).map (·.id)).filter (fun id => (cs id).deferred.isSome) =
      (part.audience n true).map (·.id) := by
  rw [← h.ids_audience]
  exact List.filter_congr fun id _ => by cases (cs id).deferred <;> rfl

theorem Part.deferred_of_mem {l : Listener} {deferred : Bool} (hl : l ∈ part.audience n deferred) :
    l ∈ part.hearers n ∧ l.deferred = deferred := by
  rw [part.audience_eq] at hl
  obtain ⟨hl, hdeferred⟩ := List.mem_filter.mp hl
  exact ⟨hl, eq_of_beq hdeferred⟩

/-- No listener is both plain and deferred. -/
theorem Answers.apart (h : Answers cs turns heard (part.hearers n)) :
    ∀ l ∈ part.audience n true, l.id ∉ (part.audience n false).map (·.id) := by
  intro l hl hmem
  obtain ⟨l', hl', hid⟩ := List.mem_map.mp hmem
  obtain ⟨hl, hdeferred⟩ := Part.deferred_of_mem hl
  obtain ⟨hl', hplain⟩ := Part.deferred_of_mem hl'
  cases List.inj_on_of_nodup_map h.nodup hl' hl hid
  rw [hdeferred] at hplain
  cases hplain

theorem Answers.gives_way (h : Answers cs turns heard (part.hearers n)) :
    ∀ l ∈ part.audience n true, (cs l.id).deferred = some turns := by
  intro l hl
  obtain ⟨hl, hdeferred⟩ := Part.deferred_of_mem hl
  rw [h.deferred l hl, hdeferred, if_pos rfl]

theorem Answers.lt_roundBound (h : Answers cs turns heard (part.hearers n))
    (hne : part.audience n true ≠ []) :
    turns < Emitter.roundBound cs ((part.audience n true).map (·.id)) := by
  obtain ⟨l, hl⟩ := List.exists_mem_of_ne_nil _ hne
  have hid : l.id ∈ (part.audience n true).map (·.id) := List.mem_map.mpr ⟨l, hl, rfl⟩
  have hlt := Emitter.lt_roundBound cs hid
  rwa [h.gives_way l hl] at hlt

/-- **The emitter tells callbacks as a run tells its listeners**: the same ones in the same order, with
the same failure, however often the deferred ones give way. -/
theorem emissions_agree {event : String}
    (hregistered : s.registry.listeners event = (part.hearers n).map (·.id))
    (h : Answers cs turns a.heard (part.hearers n)) :
    (emitAsync cs s event []).2 = (Act.andDeferred part n (a.tell part n)).2.map .callback ∧
      ∃ ids, Alike s (emitAsync cs s event []).1 a
        (Act.andDeferred part n (a.tell part n)).1 ids ∧
        ((Act.andDeferred part n (a.tell part n)).2 = none →
          ids = (part.audience n false ++ part.audience n true).map (·.id)) := by
  obtain ⟨hfails, ids, halike, hall⟩ := callPlain_alike (h.audience false) s n
  unfold emitAsync Act.tell
  dsimp only
  rw [hregistered, h.ids_plain, h.ids_deferred, List.any_nil, if_neg Bool.false_ne_true]
  rcases hcalls : callPlain cs s ((part.audience n false).map (·.id)) with ⟨s', failure⟩
  rcases htold : a.callUntilFailure n (part.audience n false) with ⟨b, _ | message⟩
  · rw [hcalls, htold] at hfails halike
    rw [htold] at hall
    subst hfails
    obtain rfl := hall rfl
    -- What was called so far is nothing to the deferred ones.
    have hdeferred : Answers cs turns b.heard (part.audience n true) := by
      rw [halike.heard]
      exact (h.audience true).later h.apart
    obtain ⟨hlater, hdone⟩ :=
      rounds_alike h.gives_way hdeferred none rfl h.lt_roundBound s' n
    rw [hcalls, List.map_map]
    exact ⟨hlater, _, halike.trans hdone, fun _ => (List.map_append ..).symm⟩
  · rw [hcalls, htold] at hfails halike
    subst hfails
    rw [hcalls]
    exact ⟨rfl, ids, halike, fun hnone => by cases hnone⟩

end

/-- Callbacks for listeners, as they behave when they are called next. -/
def callbacksOf (turns : Nat) (heard : Heard) (ls : List Listener) : Callbacks := fun id =>
  match ls.find? (·.id == id) with
  | some l =>
    { deferred := if l.deferred then some turns else none, fails := (l.next heard).failure? }
  | none => {}

theorem answers_callbacksOf {turns : Nat} {heard : Heard} {ls : List Listener}
    (h : (ls.map (·.id)).Nodup) : Answers (callbacksOf turns heard ls) turns heard ls := by
  have hfind : ∀ l ∈ ls, ls.find? (·.id == l.id) = some l := by
    intro l hl
    cases hf : ls.find? (·.id == l.id) with
    | none => exact absurd (beq_self_eq_true l.id) (List.find?_eq_none.mp hf l hl)
    | some l' =>
      have hid := List.find?_some hf
      rw [List.inj_on_of_nodup_map h (List.mem_of_find?_eq_some hf) hl (by simpa using hid)]
  refine ⟨h, fun l hl => ?_, fun l hl => ?_, fun l hl => ?_⟩ <;>
    rw [callbacksOf, hfind l hl]

end Live

end Ostinato
