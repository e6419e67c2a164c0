import Ostinato.Proofs.Limits

/-!
# Merging tracks

Tracks are merged by time, then by track, then by the place in the track. A `Ranked` event carries all
three, and `before?` compares two of them by these alone: where all three agree it says nothing. The
events of rendered tracks have one sorted merge (`IsMerge.unique`), and `mergeEvents` is that merge
without the places.
-/

namespace Ostinato

open Machine (load)

/-- The events of a track: numbers for times, in order of time. -/
structure Timely (events : List Event) : Prop where
  isNumber : ∀ e ∈ events, e.time.IsNumber
  inTime : events.Pairwise fun a b => a.time.le b.time = true

namespace Merge

/-- An event with what it is sorted by. -/
structure Ranked where
  track : Nat
  sequence : Nat
  event : Event

namespace Ranked

/-- Whether an event comes before another, by time, track and place in the track. Of two that agree in
all of these only the events themselves could tell, and those are not compared. -/
def before? (a b : Ranked) : Option Bool :=
  if a.event.time.eq b.event.time then
    if a.track = b.track then
      if a.sequence = b.sequence then none else some (a.sequence < b.sequence)
    else some (a.track < b.track)
  else some (a.event.time.lt b.event.time)

def Before (a b : Ranked) : Prop := a.before? b = some true

def pair (a : Ranked) : Nat × Event := (a.track, a.event)

/-- What an event is sorted by, as an element of a linear order. -/
def key (a : Ranked) : WithBot (WithTop Int) ×ₗ (Nat ×ₗ Nat) :=
  toLex (a.event.time.place, toLex (a.track, a.sequence))

section
variable {a b c : Ranked}

theorem key_lt_iff : a.key < b.key ↔ a.event.time.place < b.event.time.place ∨
    a.event.time.place = b.event.time.place ∧
      (a.track < b.track ∨ a.track = b.track ∧ a.sequence < b.sequence) := by
  simp only [key, Prod.Lex.toLex_lt_toLex]

theorem before_iff : a.Before b ↔
    a.event.time.IsNumber ∧ b.event.time.IsNumber ∧ a.key < b.key := by
  rw [key_lt_iff, Before, before?]
  by_cases heq : a.event.time.eq b.event.time = true
  · obtain ⟨ha, hb⟩ := Binary64.isNumber_of_eq heq
    have hplace := (Binary64.eq_iff_place ha hb).mp heq
    rw [if_pos heq]
    split
    · split <;> simp [*]
    · simp [*]
  · rw [if_neg heq, Option.some_inj, Binary64.lt_iff]
    refine and_congr_right fun ha => and_congr_right fun hb => (or_iff_left ?_).symm
    rintro ⟨hplace, -⟩
    exact heq ((Binary64.eq_iff_place ha hb).mpr hplace)

theorem Before.trans (hab : a.Before b) (hbc : b.Before c) : a.Before c := by
  obtain ⟨ha, -, hlt⟩ := before_iff.mp hab
  obtain ⟨-, hc, hlt'⟩ := before_iff.mp hbc
  exact before_iff.mpr ⟨ha, hc, hlt.trans hlt'⟩

theorem Before.asymm (hab : a.Before b) : ¬ b.Before a := by
  intro hba
  exact lt_asymm (before_iff.mp hab).2.2 (before_iff.mp hba).2.2

theorem Before.inTime (hab : a.Before b) : a.event.time.le b.event.time = true ∧
    (a.event.time.eq b.event.time = true → a.track ≤ b.track) := by
  obtain ⟨ha, hb, hlt⟩ := before_iff.mp hab
  rw [Binary64.le_iff, Binary64.eq_iff_place ha hb]
  rcases key_lt_iff.mp hlt with hplace | ⟨hplace, hrest⟩
  · exact ⟨⟨ha, hb, hplace.le⟩, fun heq => absurd heq hplace.ne⟩
  · exact ⟨⟨ha, hb, hplace.le⟩, fun _ => by omega⟩

/-- Of two events of which one comes first, neither comparison needs the events themselves. -/
theorem Before.decided (hab : a.Before b) :
    (a.before? b).isSome = true ∧ (b.before? a).isSome = true := by
  refine ⟨Option.isSome_of_mem hab, ?_⟩
  have hlt := key_lt_iff.mp (before_iff.mp hab).2.2
  rw [before?]
  split
  · rename_i heq
    obtain ⟨hb, ha⟩ := Binary64.isNumber_of_eq heq
    have hplace := (Binary64.eq_iff_place hb ha).mp heq
    split
    · rw [if_neg]
      · rfl
      · rcases hlt with hlt | ⟨-, hlt | ⟨-, hlt⟩⟩
        · exact absurd hplace hlt.ne'
        · omega
        · omega
    · rfl
  · rfl

end

end Ranked

open Ranked

/-! ## Merging sorted lists -/

/-- A merge keeps an order that its comparison decides between the two sides. -/
theorem pairwise_merge_of {α : Type} {R : α → α → Prop} {le : α → α → Bool}
    (htrans : ∀ a b c, R a b → R b c → R a c) {l r : List α} (hl : l.Pairwise R)
    (hr : r.Pairwise R) (hle : ∀ a ∈ l, ∀ b ∈ r, if le a b then R a b else R b a) :
    (l.merge r le).Pairwise R := by
  induction l generalizing r with
  | nil => rwa [List.nil_merge]
  | cons a l ihl =>
    induction r with
    | nil => rwa [List.merge_right]
    | cons b r ihr =>
      obtain ⟨hal, hl'⟩ := List.pairwise_cons.mp hl
      obtain ⟨hbr, hr'⟩ := List.pairwise_cons.mp hr
      have hab := hle a List.mem_cons_self b List.mem_cons_self
      rw [List.cons_merge_cons]
      split
      · rename_i hfirst
        rw [if_pos hfirst] at hab
        refine List.pairwise_cons.mpr ⟨fun x hx => ?_, ihl hl' hr fun x hx y hy =>
          hle x (List.mem_cons_of_mem a hx) y hy⟩
        rcases List.mem_merge.mp hx with hx | hx
        · exact hal x hx
        · rcases List.mem_cons.mp hx with rfl | hx
          · exact hab
          · exact htrans a b x hab (hbr x hx)
      · rename_i hfirst
        rw [if_neg hfirst] at hab
        refine List.pairwise_cons.mpr ⟨fun x hx => ?_, ihr hr' fun x hx y hy =>
          hle x hx y (List.mem_cons_of_mem b hy)⟩
        rcases List.mem_merge.mp hx with hx | hx
        · rcases List.mem_cons.mp hx with rfl | hx
          · exact hab
          · exact htrans b a x hab (hal x hx)
        · exact hbr x hx

structure IsMerge (lists : List (List Ranked)) (l : List Ranked) : Prop where
  perm : l.Perm lists.flatten
  sorted : l.Pairwise Before

theorem IsMerge.unique {lists : List (List Ranked)} {l l' : List Ranked} (h : IsMerge lists l)
    (h' : IsMerge lists l') : l' = l := by
  apply List.Perm.eq_of_pairwise _ h'.sorted h.sorted (h'.perm.trans h.perm.symm)
  intro a b _ _ hab hba
  exact absurd hba hab.asymm

theorem IsMerge.decided {lists : List (List Ranked)} {l : List Ranked} (h : IsMerge lists l) :
    lists.flatten.Pairwise fun a b => (a.before? b).isSome = true ∧ (b.before? a).isSome = true :=
  (h.perm.pairwise_iff And.symm).mp (h.sorted.imp Before.decided)

/-! ## The events of tracks -/

def stream (track : Nat) (events : List Event) : List Ranked :=
  events.zipIdx.map fun x => ⟨track, x.2, x.1⟩

/-- The events of each track, ranked, if the first track has the number `first`. -/
def streamsFrom (first : Nat) (tracks : List (List Event)) : List (List Ranked) :=
  (tracks.zipIdx first).map fun x => stream x.2 x.1

def streams (tracks : List (List Event)) : List (List Ranked) := streamsFrom 0 tracks

/-- Merges lists one after the other into what is merged already, by time alone. An event stays behind
those of its time that are there before it. -/
def interleave (merged : List Ranked) (lists : List (List Ranked)) : List Ranked :=
  lists.foldl (fun merged l => merged.merge l fun a b => !b.event.time.lt a.event.time) merged

@[simp] theorem streamsFrom_nil (first : Nat) : streamsFrom first [] = [] := rfl

@[simp] theorem streamsFrom_cons (first : Nat) (events : List Event) (tracks : List (List Event)) :
    streamsFrom first (events :: tracks) = stream first events :: streamsFrom (first + 1) tracks := rfl

theorem map_event_stream (track : Nat) (events : List Event) :
    (stream track events).map Ranked.event = events := by
  rw [stream, List.map_map]
  exact List.zipIdx_map_fst 0 events

theorem map_pair_stream (track : Nat) (events : List Event) :
    (stream track events).map Ranked.pair = events.map fun e => (track, e) := by
  conv_rhs => rw [← map_event_stream track events]
  simp [stream, Ranked.pair]

theorem map_pair_flatten (tracks : List (List Event)) :
    (streams tracks).flatten.map Ranked.pair =
      tracks.zipIdx.flatMap fun x => x.1.map fun e => (x.2, e) := by
  rw [streams, streamsFrom, List.map_flatten, List.map_map, List.flatMap]
  congr 1
  exact List.map_congr_left fun x _ => map_pair_stream x.2 x.1

theorem mem_stream {track : Nat} {events : List Event} {a : Ranked} (h : a ∈ stream track events) :
    a.track = track ∧ a.event ∈ events := by
  obtain ⟨x, hx, rfl⟩ := List.mem_map.mp h
  exact ⟨rfl, List.fst_mem_of_mem_zipIdx hx⟩

/-- Places in tracks play no part in how `mergeEvents` goes about it. -/
theorem mergeEvents_eq (tracks : List (List Event)) :
    mergeEvents tracks = (interleave [] (streams tracks)).map Ranked.pair := by
  rw [mergeEvents, interleave, streams, streamsFrom]
  dsimp only
  rw [List.foldl_map, List.foldl_map]
  show List.foldl _ (List.map Ranked.pair []) _ = _
  apply List.foldl_hom
  intro merged x
  rw [← map_pair_stream]
  exact (List.map_merge (f := Ranked.pair) fun _ _ _ _ => rfl).symm

theorem stream_sorted {events : List Event} (h : Timely events) (track : Nat) :
    (stream track events).Pairwise Before := by
  rw [stream, List.pairwise_map, List.pairwise_iff_getElem]
  intro i j hi hj hij
  rw [List.length_zipIdx] at hi hj
  rw [List.getElem_zipIdx, List.getElem_zipIdx]
  obtain ⟨hni, hnj, hplace⟩ :=
    Binary64.le_iff.mp (List.pairwise_iff_getElem.mp h.inTime i j hi hj hij)
  refine before_iff.mpr ⟨hni, hnj, key_lt_iff.mpr ?_⟩
  rcases hplace.lt_or_eq with hlt | heq
  · exact .inl hlt
  · refine .inr ⟨heq, .inr ⟨rfl, ?_⟩⟩
    show 0 + i < 0 + j
    omega

/-- The step lemma: a track is merged into lower ones. -/
theorem merge_sorted {merged : List Ranked} {events : List Event} {track : Nat}
    (hmerged : merged.Pairwise Before)
    (hlow : ∀ a ∈ merged, a.track < track ∧ a.event.time.IsNumber) (h : Timely events) :
    (merged.merge (stream track events) fun a b => !b.event.time.lt a.event.time).Pairwise
      Before := by
  refine pairwise_merge_of (fun a b c hab hbc => hab.trans hbc) hmerged (stream_sorted h track) ?_
  intro a ha b hb
  obtain ⟨hlt, hna⟩ := hlow a ha
  obtain ⟨htrack, hevent⟩ := mem_stream hb
  have hnb := h.isNumber _ hevent
  split
  · rename_i hle
    rw [Bool.not_eq_true', ← Binary64.le_iff_not_lt hna hnb] at hle
    refine before_iff.mpr ⟨hna, hnb, key_lt_iff.mpr ?_⟩
    rcases (Binary64.le_iff.mp hle).2.2.lt_or_eq with hplace | hplace
    · exact .inl hplace
    · exact .inr ⟨hplace, .inl (htrack ▸ hlt)⟩
  · rename_i hgt
    rw [Bool.not_eq_true', Bool.not_eq_false] at hgt
    exact before_iff.mpr ⟨hnb, hna, key_lt_iff.mpr (.inl (Binary64.lt_iff.mp hgt).2.2)⟩

/-- The run lemma: what is merged stays sorted, and loses and adds nothing. -/
theorem interleave_isMerge {merged : List Ranked} {tracks : List (List Event)} (first : Nat)
    (hmerged : merged.Pairwise Before)
    (hlow : ∀ a ∈ merged, a.track < first ∧ a.event.time.IsNumber)
    (h : ∀ events ∈ tracks, Timely events) :
    IsMerge (merged :: streamsFrom first tracks)
      (interleave merged (streamsFrom first tracks)) := by
  induction tracks generalizing merged first with
  | nil => exact ⟨by simp [interleave], hmerged⟩
  | cons events tracks ih =>
    obtain ⟨hevents, htracks⟩ := List.forall_mem_cons.mp h
    have hnext := ih (first + 1) (merge_sorted hmerged hlow hevents) (fun a ha => by
      rcases List.mem_merge.mp ha with ha | ha
      · exact ⟨Nat.lt_succ_of_lt (hlow a ha).1, (hlow a ha).2⟩
      · obtain ⟨htrack, hevent⟩ := mem_stream ha
        exact ⟨by omega, hevents.isNumber _ hevent⟩) htracks
    refine ⟨hnext.perm.trans ?_, hnext.sorted⟩
    rw [streamsFrom_cons, List.flatten_cons, List.flatten_cons, List.flatten_cons,
      ← List.append_assoc]
    exact (List.merge_perm_append _).append_right _

theorem streams_isMerge {tracks : List (List Event)} (h : ∀ events ∈ tracks, Timely events) :
    IsMerge (streams tracks) (interleave [] (streams tracks)) := by
  have hmerge := interleave_isMerge 0 List.Pairwise.nil (by simp) h
  exact ⟨hmerge.perm, hmerge.sorted⟩

theorem filter_stream (track t : Nat) (events : List Event) :
    (stream track events).filter (·.track == t) = if track = t then stream track events else [] := by
  split
  · rename_i h
    exact List.filter_eq_self.mpr fun a ha => beq_iff_eq.mpr ((mem_stream ha).1.trans h)
  · rename_i h
    refine List.filter_eq_nil_iff.mpr fun a ha htrack => h ?_
    rw [← (mem_stream ha).1]
    exact beq_iff_eq.mp htrack

theorem le_track {tracks : List (List Event)} {first : Nat} {a : Ranked}
    (h : a ∈ (streamsFrom first tracks).flatten) : first ≤ a.track := by
  obtain ⟨l, hl, ha⟩ := List.mem_flatten.mp h
  obtain ⟨x, hx, rfl⟩ := List.mem_map.mp hl
  rw [(mem_stream ha).1]
  exact (List.mem_zipIdx hx).1

theorem filter_streamsFrom (tracks : List (List Event)) (first t : Nat) :
    (streamsFrom first tracks).flatten.filter (·.track == first + t) =
      stream (first + t) (tracks.getD t []) := by
  induction tracks generalizing first t with
  | nil => rfl
  | cons events tracks ih =>
    rw [streamsFrom_cons, List.flatten_cons, List.filter_append, filter_stream]
    cases t with
    | zero =>
      have hlater : (streamsFrom (first + 1) tracks).flatten.filter (·.track == first) = [] := by
        refine List.filter_eq_nil_iff.mpr fun a ha htrack => ?_
        have hle := le_track ha
        rw [beq_iff_eq.mp htrack] at hle
        omega
      rw [Nat.add_zero, if_pos rfl, hlater, List.append_nil]
      rfl
    | succ t =>
      rw [if_neg (by omega), List.nil_append, show first + (t + 1) = first + 1 + t by omega]
      exact ih (first + 1) t

/-- What a sorted merge of tracks says about each of them. -/
theorem IsMerge.filter_track {tracks : List (List Event)} {l : List Ranked}
    (h : IsMerge (streams tracks) l) (htracks : ∀ events ∈ tracks, Timely events) (t : Nat) :
    l.filter (·.track == t) = stream t (tracks.getD t []) := by
  have hstream := filter_streamsFrom tracks 0 t
  rw [Nat.zero_add] at hstream
  have htimely : Timely (tracks.getD t []) := by
    rw [List.getD_eq_getElem?_getD]
    rcases hget : tracks[t]? with _ | events
    · exact ⟨by simp, List.Pairwise.nil⟩
    · exact htracks events (List.mem_of_getElem? hget)
  apply List.Perm.eq_of_pairwise _ (h.sorted.filter _) (stream_sorted htimely t)
  · rw [← hstream]
    exact h.perm.filter _
  · intro a b _ _ hab hba
    exact absurd hba hab.asymm

end Merge

/-! ## Rendered tracks -/

section
variable {l : Limits} {rig rig' : Rig} {patience : Nat}

theorem timely_of_render {p : Program} {r : Rendering}
    (h : render p { limits := l } rig patience = (rig', .ok r)) : Timely r.events := by
  obtain ⟨n, N, s, hended, hfinish⟩ := Render.ended_of_render h
  cases hfinish
  have hevents : s.events.toList = (load p).emitted n := hended.holds.events
  show Timely s.events.toList
  rw [hevents]
  refine ⟨fun e he => ?_, ?_⟩
  · have htime := ((Machine.load_orderly p).emitted_onward n e he).1
    exact (Binary64.le_iff.mp htime).2.1
  · have hpair := (hended.calm.smooth.emitted (Machine.load_kept p) hended.cause.le).1
    exact hpair.imp And.left

theorem timely_of_renderTracks {programs : List Program} {renderings : List Rendering}
    (h : renderTracks l rig patience programs = (rig', .ok renderings)) :
    ∀ r ∈ renderings, Timely r.events := by
  induction programs generalizing rig renderings with
  | nil =>
    cases h
    simp
  | cons p rest ih =>
    rw [renderTracks] at h
    split at h
    · cases h
    · rename_i rig₁ r hrender
      split at h
      · cases h
      · rename_i rig₂ rs hrest
        cases h
        exact List.forall_mem_cons.mpr ⟨timely_of_render hrender, ih hrest⟩

end

open Merge in
/-- **Merged tracks are one sorted merge.** The merge of rendered tracks has every event of every track
once, those of a track in its own order, all in order of time and those of one time in order of
tracks. It is the one sorted merge of the tracks by time, track and place in the track; each track is
sorted by these, and no two events of the tracks agree in all of them, so that events themselves are
never compared. -/
theorem mergeEvents_stable (limits : Limits) (rig rig' : Rig) (patience : Nat)
    (programs : List Program) (renderings : List Rendering)
    (h : renderTracks limits rig patience programs = (rig', .ok renderings)) :
    let tracks := renderings.map (·.events)
    let merged := mergeEvents tracks
    merged.Perm (tracks.zipIdx.flatMap fun x => x.1.map fun e => (x.2, e)) ∧
      (∀ t, (merged.filter (·.1 == t)).map (·.2) = tracks.getD t []) ∧
      merged.Pairwise (fun a b => a.2.time.le b.2.time = true ∧
        (a.2.time.eq b.2.time = true → a.1 ≤ b.1)) ∧
      (∀ l ∈ streams tracks, l.Pairwise fun a b => a.before? b = some true) ∧
      ((streams tracks).flatten.Pairwise fun a b =>
        (a.before? b).isSome = true ∧ (b.before? a).isSome = true) ∧
      ∃ l, IsMerge (streams tracks) l ∧ (∀ l', IsMerge (streams tracks) l' → l' = l) ∧
        merged = l.map fun a => (a.track, a.event) := by
  intro tracks merged
  have htimely : ∀ events ∈ tracks, Timely events :=
    List.forall_mem_map.mpr (timely_of_renderTracks h)
  have hmerge := streams_isMerge htimely
  have hmerged : merged = (interleave [] (streams tracks)).map Ranked.pair := mergeEvents_eq tracks
  refine ⟨?_, fun t => ?_, ?_, ?_, hmerge.decided, _, hmerge, fun _ => hmerge.unique, hmerged⟩
  · rw [hmerged, ← map_pair_flatten]
    exact hmerge.perm.map _
  · rw [hmerged, List.filter_map, List.map_map]
    show ((interleave [] (streams tracks)).filter (·.track == t)).map Ranked.event = _
    rw [hmerge.filter_track htimely, map_event_stream]
  · rw [hmerged, List.pairwise_map]
    exact hmerge.sorted.imp Ranked.Before.inTime
  · intro l hl
    obtain ⟨x, hx, rfl⟩ := List.mem_map.mp hl
    exact stream_sorted (htimely _ (List.fst_mem_of_mem_zipIdx hx)) x.2

/-- Two tracks alike, with an empty one between them: every time of the one is a time of the other
too, and within each of them the fourth and the fifth event have the same time. -/
theorem mergeEvents_stable_mixed : ∃ rig' renderings,
    renderTracks {} {} 0 [Machine.mixedTimes, {}, Machine.mixedTimes] = (rig', .ok renderings) ∧
      renderings.map (·.events.length) = [8, 0, 8] ∧
      (∀ t, ((mergeEvents (renderings.map (·.events))).filter (·.1 == t)).map (·.2) =
        (renderings.map (·.events)).getD t []) ∧
      (mergeEvents (renderings.map (·.events))).Pairwise (fun a b =>
        a.2.time.le b.2.time = true ∧ (a.2.time.eq b.2.time = true → a.1 ≤ b.1)) := by
  have hlengths : (renderTracks {} {} 0 [Machine.mixedTimes, {}, Machine.mixedTimes]).2.toOption.map
      (·.map (·.events.length)) = some [8, 0, 8] := by decide +kernel
  rcases hrender : renderTracks {} {} 0 [Machine.mixedTimes, {}, Machine.mixedTimes] with
    ⟨rig', fault | renderings⟩
  · rw [hrender] at hlengths
    cases hlengths
  · rw [hrender] at hlengths
    obtain ⟨-, htracks, hinTime, -⟩ := mergeEvents_stable _ _ _ _ _ _ hrender
    exact ⟨rig', renderings, rfl, Option.some.inj hlengths, htracks, hinTime⟩

end Ostinato
