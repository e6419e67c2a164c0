import Mathlib.Data.List.Induction
import Mathlib.Data.List.Nodup
import Ostinato.Sounding

/-!
# The table of sounding notes

The table is a function of the events that were tracked: a note is in it if the last event of the
note makes it sound (`mem_after`), and it is in it once (`nodup_after`). The order of the other
notes' events makes no difference.
-/

namespace Ostinato.Sounding

def mark (s : Sounding) (k : NoteKey) (sounds : Bool) : Sounding :=
  if sounds then
    if s.notes.contains k then s else ⟨s.notes ++ [k]⟩
  else ⟨s.notes.filter (· != k)⟩

theorem track_eq (s : Sounding) (e : Event) : s.track e = s.mark e.key e.sounds := rfl

theorem mem_mark {s : Sounding} {k k' : NoteKey} {sounds : Bool} :
    k' ∈ (s.mark k sounds).notes ↔ if k' = k then sounds = true else k' ∈ s.notes := by
  by_cases hk : k' = k
  · rw [if_pos hk, hk]
    cases sounds with
    | false => simp [mark]
    | true =>
      by_cases hin : k ∈ s.notes
      · simp [mark, hin]
      · simp [mark, hin]
  · rw [if_neg hk]
    cases sounds with
    | false => simp [mark, hk]
    | true =>
      by_cases hin : k ∈ s.notes
      · simp [mark, hin]
      · simp [mark, hin, hk]

theorem nodup_mark {s : Sounding} (hs : s.notes.Nodup) (k : NoteKey) (sounds : Bool) :
    (s.mark k sounds).notes.Nodup := by
  cases sounds with
  | false => exact List.Nodup.filter _ hs
  | true =>
    by_cases hin : k ∈ s.notes
    · simpa [mark, hin] using hs
    · simp only [mark, List.contains_eq_mem, hin, decide_false, Bool.false_eq_true, if_false,
        if_true]
      exact List.nodup_append.mpr ⟨hs, List.nodup_singleton k, fun a ha b hb e =>
        hin (List.mem_singleton.mp hb ▸ e ▸ ha)⟩

def after (s : Sounding) (es : List Event) : Sounding := es.foldl track s

@[simp] theorem after_nil (s : Sounding) : s.after [] = s := rfl

theorem after_append (s : Sounding) (es more : List Event) :
    s.after (es ++ more) = (s.after es).after more := List.foldl_append

theorem after_concat (s : Sounding) (es : List Event) (e : Event) :
    s.after (es ++ [e]) = (s.after es).track e := s.after_append es [e]

def last? (k : NoteKey) (es : List Event) : Option Event := (es.filter (·.key = k)).getLast?

theorem last?_concat (k : NoteKey) (es : List Event) (e : Event) :
    last? k (es ++ [e]) = if e.key = k then some e else last? k es := by
  unfold last?
  rw [List.filter_append]
  split <;> simp_all

/-- A note sounds if its last event makes it sound. -/
theorem mem_after {k : NoteKey} {es : List Event} :
    k ∈ (after {} es).notes ↔ ∃ e, last? k es = some e ∧ e.sounds = true := by
  induction es using List.reverseRecOn with
  | nil => simp [last?]
  | append_singleton es e ih =>
    rw [after_concat, track_eq, mem_mark, last?_concat]
    by_cases hk : e.key = k
    · rw [if_pos hk.symm, if_pos hk]
      simp
    · rw [if_neg (Ne.symm hk), if_neg hk]
      exact ih

theorem nodup_after (es : List Event) : (after {} es).notes.Nodup := by
  induction es using List.reverseRecOn with
  | nil => exact List.nodup_nil
  | append_singleton es e ih =>
    rw [after_concat, track_eq]
    exact nodup_mark ih e.key e.sounds

theorem map_key_noteOff (time : Binary64) (tick : Int) (ks : List NoteKey) :
    (ks.map (noteOff time tick)).map Event.key = ks := by
  rw [List.map_map]
  exact List.map_id ks

end Ostinato.Sounding
