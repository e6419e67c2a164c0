import Ostinato.Proofs.Tracking

/-!
# Since when a note sounds

What a table holds after any use of it is told by the events that were tracked since the last release
(`used_eq`). A note of the table has one onset among these, the event with which it began to sound
without having been turned off since (`Onset`), and the notes stand in the order of their onsets
(`inOrder_after`).
-/

namespace Ostinato.Sounding

/-! ## Uses of a table -/

inductive Use where
  | track (event : Event)
  | release (time : Binary64) (tick : Int)

def use (s : Sounding) : Use → Sounding
  | .track e => s.track e
  | .release time tick => (s.release time tick).2

def used (us : List Use) : Sounding := us.foldl use {}

/-- The events tracked since the last release, if there are some already and no release after
them. -/
def heardAfter (es : List Event) : List Use → List Event
  | [] => es
  | .track e :: us => heardAfter (es ++ [e]) us
  | .release _ _ :: us => heardAfter [] us

/-- The events tracked since the last release. -/
def heard (us : List Use) : List Event := heardAfter [] us

theorem used_eq (us : List Use) : used us = after {} (heard us) := by
  have hgoes : ∀ es, us.foldl use (after {} es) = after {} (heardAfter es us) := by
    induction us with
    | nil => exact fun _ => rfl
    | cons u us ih =>
      intro es
      cases u with
      | track e =>
        rw [heardAfter, ← ih, after_concat]
        rfl
      | release time tick => exact ih []
  exact hgoes []

/-! ## Onsets -/

section
variable {es : List Event} {e : Event} {k : NoteKey} {i j : Nat}

/-- The `i`-th of some events began the present sounding of a note: the note did not sound before it,
and nothing turned it off after it. -/
structure Onset (es : List Event) (k : NoteKey) (i : Nat) : Prop where
  began : ∃ e, es[i]? = some e ∧ e.key = k ∧ e.sounds = true
  silent : ∀ e, last? k (es.take i) = some e → e.sounds = false
  lasts : ∀ j e, i < j → es[j]? = some e → e.key = k → e.sounds = true

theorem Onset.lt (h : Onset es k i) : i < es.length := by
  obtain ⟨e, he, -⟩ := h.began
  exact (List.getElem?_eq_some_iff.mp he).1

/-- What one more event makes of the onsets: it is one itself if its note did not sound, and it takes
that of its note away if it turns the note off. -/
theorem onset_concat : Onset (es ++ [e]) k i ↔
    (Onset es k i ∧ (e.key = k → e.sounds = true)) ∨
      (i = es.length ∧ e.key = k ∧ e.sounds = true ∧ k ∉ (after {} es).notes) := by
  rw [mem_after]
  constructor
  · intro h
    rcases Nat.lt_or_ge i es.length with hi | hi
    · refine .inl ⟨⟨?_, ?_, fun j e' hj he' => ?_⟩, fun hk => ?_⟩
      · have hbegan := h.began
        rwa [List.getElem?_append_left hi] at hbegan
      · have hsilent := h.silent
        rwa [List.take_append_of_le_length (Nat.le_of_lt hi)] at hsilent
      · have hj' : j < es.length := (List.getElem?_eq_some_iff.mp he').1
        exact h.lasts j e' hj (by rwa [List.getElem?_append_left hj'])
      · exact h.lasts es.length e hi List.getElem?_concat_length hk
    · have hlt := h.lt
      obtain rfl : i = es.length := by simp at hlt; omega
      obtain ⟨e', he', hk, hsounds⟩ := h.began
      rw [List.getElem?_concat_length] at he'
      cases he'
      refine .inr ⟨rfl, hk, hsounds, ?_⟩
      rintro ⟨e', hlast, hloud⟩
      have hsilent := h.silent e' (by rwa [List.take_left])
      rw [hloud] at hsilent
      cases hsilent
  · rintro (⟨h, hkeeps⟩ | ⟨rfl, hk, hsounds, hnew⟩)
    · refine ⟨?_, ?_, fun j e' hj he' hk => ?_⟩
      · rw [List.getElem?_append_left h.lt]
        exact h.began
      · rw [List.take_append_of_le_length (Nat.le_of_lt h.lt)]
        exact h.silent
      · rcases Nat.lt_or_ge j es.length with hj' | hj'
        · rw [List.getElem?_append_left hj'] at he'
          exact h.lasts j e' hj he' hk
        · obtain ⟨hlt, -⟩ := List.getElem?_eq_some_iff.mp he'
          obtain rfl : j = es.length := by simp at hlt; omega
          rw [List.getElem?_concat_length] at he'
          cases he'
          exact hkeeps hk
    · refine ⟨⟨e, List.getElem?_concat_length, hk, hsounds⟩, fun e' hlast => ?_,
        fun j e' hj he' _ => ?_⟩
      · rw [List.take_left] at hlast
        rw [← Bool.not_eq_true]
        exact fun hloud => hnew ⟨e', hlast, hloud⟩
      · obtain ⟨hlt, -⟩ := List.getElem?_eq_some_iff.mp he'
        simp at hlt
        omega

theorem mem_after_iff_onset : k ∈ (after {} es).notes ↔ ∃ i, Onset es k i := by
  induction es using List.reverseRecOn with
  | nil =>
    refine ⟨fun h => (by cases h), fun ⟨i, h⟩ => ?_⟩
    exact absurd h.lt (Nat.not_lt_zero i)
  | append_singleton es e ih =>
    simp only [onset_concat, after_concat, track_eq, mem_mark]
    by_cases hk : e.key = k
    · by_cases hin : k ∈ (after {} es).notes
      · obtain ⟨i, hi⟩ := ih.mp hin
        rw [if_pos hk.symm]
        exact ⟨fun hs => ⟨i, .inl ⟨hi, fun _ => hs⟩⟩, fun ⟨j, h⟩ =>
          h.elim (fun h => h.2 hk) (fun h => h.2.2.1)⟩
      · rw [if_pos hk.symm]
        exact ⟨fun hs => ⟨es.length, .inr ⟨rfl, hk, hs, hin⟩⟩, fun ⟨j, h⟩ =>
          h.elim (fun h => h.2 hk) (fun h => h.2.2.1)⟩
    · rw [if_neg (Ne.symm hk), ih]
      exact ⟨fun ⟨i, hi⟩ => ⟨i, .inl ⟨hi, fun h => absurd h hk⟩⟩, fun ⟨i, h⟩ =>
        h.elim (fun h => ⟨i, h.1⟩) (fun h => absurd h.2.1 hk)⟩

theorem Onset.unique (hi : Onset es k i) (hj : Onset es k j) : i = j := by
  induction es using List.reverseRecOn with
  | nil => exact absurd hi.lt (Nat.not_lt_zero i)
  | append_singleton es e ih =>
    rw [onset_concat] at hi hj
    rcases hi with ⟨hi, -⟩ | ⟨rfl, -, -, hnew⟩
    · rcases hj with ⟨hj, -⟩ | ⟨rfl, -, -, hnew⟩
      · exact ih hi hj
      · exact absurd (mem_after_iff_onset.mpr ⟨i, hi⟩) hnew
    · rcases hj with ⟨hj, -⟩ | ⟨rfl, -⟩
      · exact absurd (mem_after_iff_onset.mpr ⟨j, hj⟩) hnew
      · rfl

end

/-! ## The order of the table -/

/-- Some notes stand in the order of their onsets. -/
def InOrder (es : List Event) (ks : List NoteKey) : Prop :=
  ks.Pairwise fun k k' => ∀ i j, Onset es k i → Onset es k' j → i < j

section
variable {es : List Event} {e : Event} {ks : List NoteKey}

theorem InOrder.concat (h : InOrder es ks)
    (hold : ∀ k ∈ ks, ¬(e.key = k ∧ e.sounds = true ∧ k ∉ (after {} es).notes)) :
    InOrder (es ++ [e]) ks := by
  have hkept : ∀ k ∈ ks, ∀ i, Onset (es ++ [e]) k i → Onset es k i := by
    intro k hk i hi
    rcases onset_concat.mp hi with ⟨hi, -⟩ | ⟨-, hnew⟩
    · exact hi
    · exact absurd hnew (hold k hk)
  exact h.imp_of_mem fun hk hk' hlt i j hi hj => hlt i j (hkept _ hk i hi) (hkept _ hk' j hj)

theorem inOrder_after (es : List Event) : InOrder es (after {} es).notes := by
  induction es using List.reverseRecOn with
  | nil => exact .nil
  | append_singleton es e ih =>
    have hold : InOrder (es ++ [e]) (after {} es).notes :=
      ih.concat fun k hk hnew => hnew.2.2 hk
    rw [after_concat, track_eq]
    cases hsounds : e.sounds with
    | false => exact hold.filter _
    | true =>
      by_cases hin : e.key ∈ (after {} es).notes
      · simpa [mark, hin] using hold
      · -- A note that begins to sound goes to the end, and its onset is the latest.
        simp only [mark, List.contains_eq_mem, hin, decide_false, Bool.false_eq_true, if_false,
          if_true]
        refine List.pairwise_append.mpr ⟨hold, List.pairwise_singleton _ _, ?_⟩
        intro k hk k' hk' i j hi hj
        obtain rfl := List.mem_singleton.mp hk'
        rcases onset_concat.mp hj with ⟨hj, -⟩ | ⟨rfl, -⟩
        · exact absurd (mem_after_iff_onset.mpr ⟨j, hj⟩) hin
        · rcases onset_concat.mp hi with ⟨hi, -⟩ | ⟨-, -, -, hnew⟩
          · exact hi.lt
          · exact absurd hk hnew

end

/-- Note-offs take their notes out of the table, whatever else it holds. -/
theorem after_noteOffs (s : Sounding) (time : Binary64) (tick : Int) (ks : List NoteKey) :
    (s.after (ks.map (noteOff time tick))).notes = s.notes.filter (· ∉ ks) := by
  induction ks generalizing s with
  | nil => simp
  | cons k ks ih =>
    have hoff : s.track (noteOff time tick k) = ⟨s.notes.filter (· != k)⟩ := rfl
    refine (ih (s.track (noteOff time tick k))).trans ?_
    rw [hoff, List.filter_filter]
    refine List.filter_congr fun k' _ => ?_
    rw [Bool.eq_iff_iff]
    simp [and_comm]

/-- **The table is its history.** Whatever was done with a table, it holds without duplicates the notes
whose latest event since the last release turned them on, in the order in which their present
soundings began. A release answers with a note-off for each of them, in that order and with the time
and tick given, and leaves the table empty; so does tracking these note-offs. -/
theorem used_tells_history (us : List Use) :
    (used us).notes.Nodup ∧
    (∀ k, k ∈ (used us).notes ↔
      ∃ e, last? k (heard us) = some e ∧ e.on = true ∧ 0 < e.velocity) ∧
    ((∀ k ∈ (used us).notes, ∃! i, Onset (heard us) k i) ∧ InOrder (heard us) (used us).notes) ∧
    ∀ time tick,
      ((used us).release time tick).1.map Event.key = (used us).notes ∧
      (∀ e ∈ ((used us).release time tick).1,
        e.on = false ∧ e.velocity = 0 ∧ e.time = time ∧ e.tick = tick) ∧
      ((used us).release time tick).2.notes = [] ∧
      ((used us).after ((used us).release time tick).1).notes = [] := by
  rw [used_eq]
  refine ⟨nodup_after _, fun k => ?_, ⟨fun k hk => ?_, inOrder_after _⟩, fun time tick =>
    ⟨map_key_noteOff _ _ _, fun e he => ?_, rfl, ?_⟩⟩
  · rw [mem_after]
    simp [Event.sounds]
  · obtain ⟨i, hi⟩ := mem_after_iff_onset.mp hk
    exact ⟨i, hi, fun j hj => hj.unique hi⟩
  · obtain ⟨k, -, rfl⟩ := List.mem_map.mp he
    exact ⟨rfl, rfl, rfl, rfl⟩
  · refine (after_noteOffs _ _ _ _).trans (List.filter_eq_nil_iff.mpr fun k hk => ?_)
    simpa using hk

/-- Notes of one channel, the velocity zero being another way to turn a note off. -/
def struck (pitch velocity : Int) : Use :=
  .track { time := .zero, tick := 0, on := true, channel := 0, pitch := pitch, velocity := velocity }

/-- Of three notes behind a release the first is struck again, and the second ends and begins anew. -/
def restruck : List Use :=
  [struck 65 90, .release .zero 3, struck 62 90, struck 60 90, struck 64 90, struck 62 40,
    struck 60 0, struck 60 90]

theorem used_tells_history_restruck :
    (used restruck).notes = [⟨none, 0, 62⟩, ⟨none, 0, 64⟩, ⟨none, 0, 60⟩] ∧
      (∃! i, Onset (heard restruck) ⟨none, 0, 60⟩ i) ∧
      (∀ e ∈ ((used restruck).release .zero 7).1, e.velocity = 0 ∧ e.tick = 7) ∧
      ((used restruck).after ((used restruck).release .zero 7).1).notes = [] := by
  obtain ⟨-, -, ⟨honset, -⟩, hrelease⟩ := used_tells_history restruck
  obtain ⟨-, hoff, -, hempty⟩ := hrelease .zero 7
  have hnotes : (used restruck).notes = [⟨none, 0, 62⟩, ⟨none, 0, 64⟩, ⟨none, 0, 60⟩] := by decide
  refine ⟨hnotes, honset _ ?_, fun e he => ?_, hempty⟩
  · rw [hnotes]
    decide
  · obtain ⟨-, hvelocity, -, htick⟩ := hoff e he
    exact ⟨hvelocity, htick⟩

end Ostinato.Sounding
