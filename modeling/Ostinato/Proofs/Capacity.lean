import Ostinato.Proofs.Accounting
import Ostinato.Proofs.Time

/-!
# How many events a render collects

A render looks at its limit on events after it has collected one. So it never has more events than the
limit says, if this is one or more; but a limit of none lets one event through
(`no_events_but_one`). What is collected through a router is what was delivered to the sinks.
-/

namespace Ostinato.Render

open Machine (load)

section
variable {p : Program} {q : Request} {rig rig' : Rig} {patience : Nat} {E : Int}
  (hE : q.limits.maxEvents = some E)
include hE

theorem collected_le {rendering : Rendering} (h : render p q rig patience = (rig', .ok rendering)) :
    (rendering.events.length : Int) ≤ max 1 E := by
  obtain ⟨n, N, s, hended, hfinish⟩ := ended_of_render h
  cases hfinish
  show (s.events.toList.length : Int) ≤ max 1 E
  rw [Array.length_toList]
  exact hended.room E hE

theorem delivered_le {r : Router} (hq : q.router = some r) {o : Overflow}
    (h : render p q rig patience = (rig', .error (.overflow o))) :
    ∃ n delivered errors,
      Accounted r rig.sinks ((load p).emitted n) delivered errors rig'.sinks ∧
        (delivered.length : Int) ≤ max 1 E := by
  obtain ⟨n, s, hstrained, rfl⟩ := strained_of_render h
  have hevents := hstrained.holds.events
  rw [Request.books_router hq] at hevents
  refine ⟨n, _, _, hstrained.sinks_eq hq ▸ books_accounted r rig.sinks ((load p).emitted n), ?_⟩
  rw [← hevents, Array.length_toList]
  exact hstrained.room E hE

end

/-- **No render collects more events than it was asked for, save that one is always let through.**
Whatever the other limits, a render with a result has at most as many events as its limit says, or one
if this is less than one, and through a router these are the program's events that the sinks have
received. Nor have they received more if the render breaks off. -/
theorem collects_at_most {q : Request} {E : Int} (hE : q.limits.maxEvents = some E) (p : Program)
    (rig rig' : Rig) (patience : Nat) :
    (∀ rendering, render p q rig patience = (rig', .ok rendering) →
      (rendering.events.length : Int) ≤ max 1 E ∧ (1 ≤ E → (rendering.events.length : Int) ≤ E) ∧
        ∀ r, q.router = some r → ∃ N m,
          Tally p r rig.sinks rig'.sinks m N (q.timely ((load p).emitted N)) rendering.events
            rendering.result.outputErrors) ∧
      ∀ r o, q.router = some r → render p q rig patience = (rig', .error (.overflow o)) →
        ∃ n delivered errors,
          Accounted r rig.sinks ((load p).emitted n) delivered errors rig'.sinks ∧
            (delivered.length : Int) ≤ max 1 E := by
  refine ⟨fun rendering h => ?_, fun r o hq h => delivered_le hE hq h⟩
  have hle := collected_le hE h
  refine ⟨hle, fun h1 => by omega, fun r hq => ?_⟩
  obtain ⟨N, m, reason, htally, -⟩ := render_tally hq h
  exact ⟨N, m, htally⟩

def threeNotes : Request where
  limits := { maxSeconds := none, maxEvents := some 3, maxSteps := some 100 }
  router := some { default := some "main" }

theorem collects_at_most_three : ∃ rig' rendering N m,
    render Machine.mixedTimes threeNotes { sinks := [("main", Sink.recording)] } 0 =
        (rig', .ok rendering) ∧
      rendering.events.length = 3 ∧ (rendering.events.length : Int) ≤ max 1 3 ∧
      Tally Machine.mixedTimes { default := some "main" } [("main", Sink.recording)] rig'.sinks m N
        (threeNotes.timely ((load Machine.mixedTimes).emitted N)) rendering.events
        rendering.result.outputErrors := by
  have hlength : (render Machine.mixedTimes threeNotes { sinks := [("main", Sink.recording)] }
      0).2.toOption.map (·.events.length) = some 3 := by decide +kernel
  rcases hrender : render Machine.mixedTimes threeNotes { sinks := [("main", Sink.recording)] } 0 with
    ⟨rig', f | rendering⟩
  · rw [hrender] at hlength
    cases hlength
  · rw [hrender] at hlength
    obtain ⟨hrenders, -⟩ := collects_at_most (q := threeNotes) rfl Machine.mixedTimes
      { sinks := [("main", Sink.recording)] } rig' 0
    obtain ⟨hle, -, hrouter⟩ := hrenders rendering hrender
    obtain ⟨N, m, htally⟩ := hrouter _ rfl
    exact ⟨rig', rendering, N, m, rfl, Option.some.inj hlength, hle, htally⟩

def noEvents : Request where
  limits := { maxEvents := some 0 }
  router := some { default := some "main" }

def oneNote : Program where
  instructions := #[.send ⟨true, 0, 60, 100, none, ⟨1, 1⟩⟩]

def onlyNote : Event where
  time := .zero
  tick := 0
  on := true
  channel := 0
  pitch := 60
  velocity := 100
  index := 0

set_option maxRecDepth 4000 in
theorem compile_oneNote : compile "SEND NOTEON 1, 60, 100" none = .ok oneNote := by
  cbv

/-- Asked for no event, a render of one note collects it. The sink has taken it, and its release. -/
theorem no_events_but_one : compile "SEND NOTEON 1, 60, 100" none = .ok oneNote ∧
    (render oneNote noEvents { sinks := [("main", Sink.recording)] } 0).2.toOption.map
        (·.events) = some [onlyNote] ∧
      (render oneNote noEvents { sinks := [("main", Sink.recording)] } 0).1.sinks.map
        (·.2.receipts) =
          [[.event onlyNote, .event { onlyNote with on := false, velocity := 0, index := -1 }]] :=
  ⟨compile_oneNote, by decide +kernel, by decide +kernel⟩

end Ostinato.Render
