import Ostinato.Proofs.Tracking
import Ostinato.Run

/-!
# What becomes of events that are dispatched

Which events reach their sinks depends on the router and on the sinks, which may fail, but not on
the journal. `Router.books` dispatches some events one after the other and keeps the books: the sinks
afterwards, the events that were delivered and the faults of the others. A run that stops early goes
on with its `lastWords`: a note-off for each note of which the last delivered event made it sound.
-/

namespace Ostinato

def Router.post (r : Router) (sinks : Sinks) (e : Event) : Sinks × Option OutputFault :=
  ((r.dispatch { sinks := sinks } e).1.sinks, (r.dispatch { sinks := sinks } e).2)

/-- The books of some events: what their sinks are like afterwards, which events were delivered and
what faults there were. -/
structure Books where
  sinks : Sinks
  delivered : List Event := []
  errors : List OutputFault := []

def Books.enter (r : Router) (b : Books) (e : Event) : Books :=
  match r.post b.sinks e with
  | (sinks, none) => { b with sinks := sinks, delivered := b.delivered ++ [e] }
  | (sinks, some f) => { b with sinks := sinks, errors := b.errors ++ [f] }

def Router.books (r : Router) (sinks : Sinks) (es : List Event) : Books :=
  es.foldl (Books.enter r) { sinks := sinks }

section
variable {r : Router} {rig : Rig} {sinks : Sinks} {e : Event} {es : List Event}

theorem sendTo_post (rig : Rig) (id : String) (e : Event) :
    (Router.sendTo rig id e).1.sinks = (Router.sendTo { sinks := rig.sinks } id e).1.sinks ∧
      (Router.sendTo rig id e).2 = (Router.sendTo { sinks := rig.sinks } id e).2 := by
  simp only [Router.sendTo]
  split <;> exact ⟨rfl, rfl⟩

/-- The journal makes no difference to a dispatch. -/
theorem dispatch_post (r : Router) (rig : Rig) (e : Event) :
    (r.dispatch rig e).1.sinks = (r.post rig.sinks e).1 ∧
      (r.dispatch rig e).2 = (r.post rig.sinks e).2 := by
  unfold Router.post Router.dispatch
  split
  · exact ⟨rfl, rfl⟩
  · exact ⟨rfl, rfl⟩
  · exact ⟨rfl, rfl⟩
  · exact sendTo_post rig _ e

theorem deliver_post (r : Router) (rig : Rig) (e : Event) :
    (Run.deliver r rig e).1.sinks = (r.post rig.sinks e).1 ∧
      (Run.deliver r rig e).2 = (r.post rig.sinks e).2 := by
  obtain ⟨hsinks, hfault⟩ := dispatch_post r rig e
  rw [← hsinks, ← hfault]
  unfold Run.deliver
  split
  · rename_i h
    rw [h]
    exact ⟨rfl, rfl⟩
  · rename_i rig' fault h
    rw [h]
    cases fault <;> exact ⟨rfl, rfl⟩

theorem releaseOne_post (r : Router) (rig : Rig) (e : Event) :
    (Run.releaseOne r rig e).sinks = (r.post rig.sinks e).1 := by
  rw [← (dispatch_post r rig e).1]
  unfold Run.releaseOne
  split
  · rename_i h
    rw [h]
  · rename_i h
    rw [h]
    rfl

theorem books_append (r : Router) (sinks : Sinks) (es more : List Event) :
    r.books sinks (es ++ more) = more.foldl (Books.enter r) (r.books sinks es) := List.foldl_append

theorem books_concat (r : Router) (sinks : Sinks) (es : List Event) (e : Event) :
    r.books sinks (es ++ [e]) = (r.books sinks es).enter r e := books_append r sinks es [e]

theorem Books.enter_cases (r : Router) (b : Books) (e : Event) :
    (r.post b.sinks e).2 = none ∧
        b.enter r e = ⟨(r.post b.sinks e).1, b.delivered ++ [e], b.errors⟩ ∨
      ∃ f, (r.post b.sinks e).2 = some f ∧
        b.enter r e = ⟨(r.post b.sinks e).1, b.delivered, b.errors ++ [f]⟩ := by
  unfold Books.enter
  split
  · rename_i h
    exact .inl (by rw [h]; exact ⟨rfl, rfl⟩)
  · rename_i f h
    exact .inr ⟨f, by rw [h]; exact ⟨rfl, rfl⟩⟩

theorem Books.enter_sinks (r : Router) (b : Books) (e : Event) :
    (b.enter r e).sinks = (r.post b.sinks e).1 := by
  rcases b.enter_cases r e with ⟨-, h⟩ | ⟨f, -, h⟩ <;> rw [h]

theorem errors_le_foldl (b : Books) (more : List Event) :
    b.errors.length ≤ (more.foldl (Books.enter r) b).errors.length := by
  induction more generalizing b with
  | nil => exact Nat.le_refl _
  | cons e rest ih =>
    refine Nat.le_trans ?_ (ih (b.enter r e))
    rcases b.enter_cases r e with ⟨-, h⟩ | ⟨f, -, h⟩ <;> simp [h]

theorem delivered_of_errors (b : Books) (more : List Event)
    (h : (more.foldl (Books.enter r) b).errors.length = b.errors.length) :
    (more.foldl (Books.enter r) b).delivered = b.delivered ++ more := by
  induction more generalizing b with
  | nil => simp
  | cons e rest ih =>
    rw [List.foldl_cons] at h ⊢
    rcases b.enter_cases r e with ⟨-, he⟩ | ⟨f, -, he⟩
    · rw [he] at h ⊢
      rw [ih _ h, List.append_assoc]
      rfl
    · have hgrows := errors_le_foldl (r := r) (b.enter r e) rest
      rw [h, he, List.length_append, List.length_singleton] at hgrows
      omega

end

/-! ## Releases -/

/-- The note-offs of a run that has stopped with some events delivered; none if it halted. -/
def lastWords (m : Machine) (delivered : List Event) : List Event :=
  if m.state = .halted then []
  else (Sounding.after {} delivered).notes.map (Sounding.noteOff m.clock.now m.clock.ticks)

theorem foldl_releaseOne (r : Router) (rig : Rig) (b : Books) (h : rig.sinks = b.sinks)
    (es : List Event) :
    (es.foldl (Run.releaseOne r) rig).sinks = (es.foldl (Books.enter r) b).sinks := by
  induction es generalizing rig b with
  | nil => exact h
  | cons e rest ih => exact ih _ _ (by rw [releaseOne_post, Books.enter_sinks, h])

theorem release_books {r : Router} {rig : Rig} {b : Books} (h : rig.sinks = b.sinks) (s : Sounding)
    (m : Machine) :
    (Run.release r rig s m).sinks =
      ((s.notes.map (Sounding.noteOff m.clock.now m.clock.ticks)).foldl (Books.enter r) b).sinks := by
  unfold Run.release
  split
  · rename_i hempty
    have hnil : s.notes = [] := by simpa [Sounding.isEmpty] using hempty
    rw [hnil]
    exact h
  · refine foldl_releaseOne r _ b ?_ _
    exact h

/-- What a run that has ended in some state, at some time and tick, dispatches after the events of
its program, of which some were delivered. -/
structure Releases (state : RunState) (time : Binary64) (tick : Int)
    (delivered released : List Event) : Prop where
  /-- A run that halted adds nothing. -/
  halted : state = .halted → released = []
  /-- Any other adds a note-off for each note whose last delivered event made it sound, and no
  others. -/
  notes : state ≠ .halted → ∀ k, k ∈ released.map Event.key ↔
    ∃ e, Sounding.last? k delivered = some e ∧ e.sounds = true
  once : (released.map Event.key).Nodup
  /-- The note-offs have the final time and tick, no velocity and no instruction. -/
  noteOff : ∀ e ∈ released, e.time = time ∧ e.tick = tick ∧ e.on = false ∧ e.velocity = 0 ∧
    e.index = -1

theorem lastWords_releases (m : Machine) (delivered : List Event) :
    Releases m.state m.clock.now m.clock.ticks delivered (lastWords m delivered) := by
  have hkeys : ((Sounding.after {} delivered).notes.map
      (Sounding.noteOff m.clock.now m.clock.ticks)).map Event.key =
        (Sounding.after {} delivered).notes := Sounding.map_key_noteOff _ _ _
  by_cases hm : m.state = .halted
  · rw [lastWords, if_pos hm]
    exact ⟨fun _ => rfl, fun h => absurd hm h, List.nodup_nil, by simp⟩
  · rw [lastWords, if_neg hm]
    refine ⟨fun h => absurd h hm, fun _ k => ?_, ?_, fun e he => ?_⟩
    · rw [hkeys]
      exact Sounding.mem_after
    · rw [hkeys]
      exact Sounding.nodup_after delivered
    · obtain ⟨k, -, rfl⟩ := List.mem_map.mp he
      exact ⟨rfl, rfl, rfl, rfl, rfl⟩

theorem delivered_of_lastWords {m : Machine} {delivered : List Event} {e : Event}
    (h : e ∈ lastWords m delivered) : e.velocity = 0 ∧ ∃ e' ∈ delivered, e'.key = e.key := by
  have hreleases := lastWords_releases m delivered
  have hm : m.state ≠ .halted := by
    intro hm
    rw [hreleases.halted hm] at h
    cases h
  obtain ⟨-, -, -, hvelocity, -⟩ := hreleases.noteOff e h
  obtain ⟨e', hlast, -⟩ := (hreleases.notes hm e.key).mp (List.mem_map_of_mem h)
  obtain ⟨hmem, hkey⟩ := List.mem_filter.mp (List.mem_of_getLast? hlast)
  exact ⟨hvelocity, e', hmem, by simpa using hkey⟩

/-- Once they have been delivered, no note sounds. -/
theorem Releases.silent {state : RunState} {time : Binary64} {tick : Int}
    {delivered released : List Event} (h : Releases state time tick delivered released)
    (hs : state ≠ .halted) (k : NoteKey) (e : Event)
    (he : Sounding.last? k (delivered ++ released) = some e) : e.sounds = false := by
  by_contra hsounds
  rw [Sounding.last?, List.filter_append, List.getLast?_append, Option.or_eq_some_iff] at he
  rcases he with he | ⟨hnone, he⟩
  · obtain ⟨hmem, -⟩ := List.mem_filter.mp (List.mem_of_getLast? he)
    obtain ⟨-, -, hon, -⟩ := h.noteOff e hmem
    simp [Event.sounds, hon] at hsounds
  · obtain ⟨off, hoff, hk⟩ := List.mem_map.mp ((h.notes hs k).mpr ⟨e, he, by simpa using hsounds⟩)
    rw [List.getLast?_eq_none_iff, List.filter_eq_nil_iff] at hnone
    exact hnone off hoff (by simpa using hk)

end Ostinato
