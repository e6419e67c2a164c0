import Ostinato.Compile
import Ostinato.Proofs.Accounting
import Ostinato.Proofs.Headroom
import Ostinato.Proofs.Sharing

/-!
# Notes that a render leaves on

On sinks that take every send, a router alone decides what is `heard`, releases included: what a note-off
turns off was heard through the same output. So whatever stops a render, its notes are off when it
returns. But a render that breaks off, because a number is too large for the clock or a value of a note
is none, dispatches nothing more, and the notes that are on then stay on. A program with modest numbers
never gets there.
-/

namespace Ostinato

open Machine (load)

/-! ## What is heard -/

/-- The events that a router has a place for. -/
def Router.heard (r : Router) (es : List Event) : List Event :=
  es.filter fun e => (r.refusal e).isNone

def AllOff (es : List Event) : Prop := ∀ k e, Sounding.last? k es = some e → e.sounds = false

section
variable {r : Router} {sinks : Sinks} {es : List Event} {e e' : Event} {m : Machine}

theorem allOff_iff : AllOff es ↔ (Sounding.after {} es).notes = [] := by
  rw [List.eq_nil_iff_forall_not_mem]
  refine ⟨fun h k hk => ?_, fun h k e he => ?_⟩
  · obtain ⟨e, he, hsounds⟩ := Sounding.mem_after.mp hk
    rw [h k e he] at hsounds
    cases hsounds
  · by_contra hsounds
    exact h k (Sounding.mem_after.mpr ⟨e, he, by simpa using hsounds⟩)

instance AllOff.decidable (es : List Event) : Decidable (AllOff es) :=
  decidable_of_iff _ allOff_iff.symm

theorem refusal_isNone (h : e.output = e'.output) :
    (r.refusal e).isNone = (r.refusal e').isNone := by
  unfold Router.refusal
  rw [h]
  cases r.resolve e'.output with
  | error f => cases f <;> rfl
  | ok id => rfl

theorem books_heard (h : sinks.Reliable) (hes : ∀ e ∈ es, e.InRange) :
    (r.books sinks es).delivered = r.heard es := by
  induction es using List.reverseRecOn with
  | nil => rfl
  | append_singleton es e ih =>
    obtain ⟨hes, he⟩ := List.forall_mem_append.mp hes
    obtain ⟨-, hfault⟩ := post_reliable (r := r) (books_reliable (r := r) h hes) (he e (by simp))
    rw [books_concat, Router.heard, List.filter_append, ← Router.heard, ← ih hes]
    rcases Books.enter_cases r (r.books sinks es) e with ⟨hnone, henter⟩ | ⟨f, hsome, henter⟩
    · rw [henter, List.filter_singleton, ← hfault, hnone]
      rfl
    · rw [henter, List.filter_singleton, ← hfault, hsome]
      exact (List.append_nil _).symm

theorem heard_lastWords (h : ∀ e ∈ es, (r.refusal e).isNone = true) :
    r.heard (lastWords m es) = lastWords m es := by
  rw [Router.heard, List.filter_eq_self]
  intro e he
  obtain ⟨-, e', hmem, hkey⟩ := delivered_of_lastWords he
  rw [← refusal_isNone (congrArg NoteKey.output hkey)]
  exact h e' hmem

end

/-- A run that stops with some machine has turned off what was heard of it, unless the machine
halted. -/
theorem Outset.finalSinks_off {o : Outset} (ho : o.sinks.Reliable) (n : Nat) (m : Machine) :
    ∃ released errors,
      Accounted o.router o.sinks ((load o.program).emitted n ++ released)
        ((o.books n).delivered ++ released) errors (o.finalSinks n m) ∧
      (∀ e ∈ released, e.on = false ∧ e.index = -1) ∧
      (m.state ≠ .halted → AllOff ((o.books n).delivered ++ released)) := by
  have hrange := (load o.program).emitted_inRange n
  have hheard : (o.books n).delivered = o.router.heard ((load o.program).emitted n) :=
    books_heard ho hrange
  have hsome : ∀ e ∈ (o.books n).delivered, (o.router.refusal e).isNone = true := by
    intro e he
    rw [hheard] at he
    exact (List.mem_filter.mp he).2
  have hreleases := lastWords_releases m (o.books n).delivered
  have hdelivered : (o.router.books o.sinks ((load o.program).emitted n ++
      lastWords m (o.books n).delivered)).delivered =
        (o.books n).delivered ++ lastWords m (o.books n).delivered := by
    rw [books_heard ho, Router.heard, List.filter_append, ← Router.heard, ← Router.heard,
      heard_lastWords hsome, ← hheard]
    refine List.forall_mem_append.mpr ⟨hrange, lastWords_inRange m fun e he => ?_⟩
    exact hrange e (mem_of_delivered he)
  have haccounted := books_accounted o.router o.sinks
    ((load o.program).emitted n ++ lastWords m (o.books n).delivered)
  rw [hdelivered] at haccounted
  refine ⟨lastWords m (o.books n).delivered, _, haccounted, fun e he => ?_, hreleases.silent⟩
  obtain ⟨-, -, hon, -, hindex⟩ := hreleases.noteOff e he
  exact ⟨hon, hindex⟩

/-! ## Breaking off -/

namespace Machine

/-- What the next instruction asks of the clock. -/
def request? (m : Machine) : Option Clock.Request :=
  match m.instruction? with
  | some (.wait w) => some (.wait w.amount w.unit)
  | some (.tempo t) => some (.tempo t.bpm t.ticksPerBeat)
  | _ => none

/-- Why a step breaks off: its instruction asks too much of the clock, or is a note made by hand with a
value that is no number. -/
inductive Breaks (m : Machine) (o : Overflow) : Prop where
  | clock {q : Clock.Request} : m.request? = some q →
      (m.clock.ask q).2 = some (.overflow o) → Breaks m o
  | note {s : LooseSend} : m.instruction? = some (.looseSend s) →
      m.looseEvent s = .error (.inr o) → Breaks m o

theorem Stepped.breaks {m m' : Machine} {o : Overflow} (hs : Stepped m m' (.overflow o)) :
    m.Breaks o := by
  cases hs with
  | broken hi hx =>
    obtain ⟨l, rfl, he⟩ := hx.exists_loose
    exact .note hi he
  | @waitOverflow w c _ hi h0 hc =>
    refine .clock (q := .wait w.amount w.unit) (by rw [request?, hi]) ?_
    rw [Clock.ask, hc]
    rfl
  | @tempoOverflow t c _ hi hc =>
    refine .clock (q := .tempo t.bpm t.ticksPerBeat) (by rw [request?, hi]) ?_
    rw [Clock.ask, hc]
    rfl

end Machine

namespace Render

section
variable {p : Program} {q : Request} {r : Router} {rig rig' : Rig} {patience : Nat}
  (hq : q.router = some r) (hrig : rig.sinks.Reliable)
include hq hrig

theorem returns_off {rendering : Rendering}
    (h : render p q rig patience = (rig', .ok rendering)) :
    ∃ n released errors,
      Accounted r rig.sinks ((load p).emitted n ++ released) (rendering.events ++ released) errors
        rig'.sinks ∧
      (∀ e ∈ released, e.on = false ∧ e.index = -1) ∧
      (rendering.result.state ≠ .halted → AllOff (rendering.events ++ released)) := by
  obtain ⟨n, m, -, hsinks, hevents, reason, hresult⟩ := render_ends hq h
  obtain ⟨released, errors, haccounted, hreleased, hoff⟩ :=
    Outset.finalSinks_off (o := ⟨p, r, rig.sinks⟩) hrig n m
  have hstate : rendering.result.state = m.state := by
    rw [hresult]
    rfl
  rw [hsinks, hevents, hstate]
  exact ⟨n, released, errors, haccounted, hreleased, hoff⟩

/-- After the step that overflows nothing is dispatched. -/
theorem breaks_off {o : Overflow} (h : render p q rig patience = (rig', .error (.overflow o))) :
    ∃ n errors, (load p).Calm n ∧ ((load p).steps n).Breaks o ∧
      Accounted r rig.sinks ((load p).emitted n) (r.heard ((load p).emitted n)) errors rig'.sinks := by
  obtain ⟨n, s, hstrained, rfl⟩ := strained_of_render h
  have hstepped := ((load p).steps n).stepped
  rw [hstrained.overflow] at hstepped
  have haccounted := books_accounted r rig.sinks ((load p).emitted n)
  rw [← hstrained.sinks_eq hq, books_heard hrig ((load p).emitted_inRange n)] at haccounted
  exact ⟨n, _, hstrained.calm, hstepped.breaks, haccounted⟩

end

theorem returns_of_modest {p : Program} {q : Request} (hp : p.Modest) {M : Int}
    (hM : q.limits.maxSteps = some M) (h0 : 0 ≤ M) (hle : M ≤ reach) (rig : Rig) (patience : Nat) :
    ∃ rig' rendering, render p q rig patience = (rig', .ok rendering) := by
  rcases render_total hM h0 p rig patience with hreturns | ⟨rig', o, h⟩
  · exact hreturns
  · obtain ⟨n, s, hstrained, -⟩ := strained_of_render h
    have hn := hstrained.steps M hM
    exact absurd hstrained.overflow ((Machine.steps_modest hp (n := n + 1) (by omega)).2 n
      (Nat.lt_succ_self n) o)

/-- **A render turns its notes off whenever it returns.** Through a router to sinks that take every
send, whatever its limits and whatever stops it, the notes that were delivered are off once a render has
returned, unless the program halted by itself; and a render of a program with modest numbers returns. A
render that breaks off has got to an instruction that asks too much of the clock, or to a note with a
value that is no number, and has dispatched the events before it and nothing else, so that every note
which is on at that instruction stays on. -/
theorem render_turns_off {q : Request} {r : Router} (hq : q.router = some r) (p : Program) (rig : Rig)
    (hrig : rig.sinks.Reliable) (patience : Nat) :
    (∀ rig' rendering, render p q rig patience = (rig', .ok rendering) →
      ∃ n released errors,
        Accounted r rig.sinks ((load p).emitted n ++ released) (rendering.events ++ released) errors
          rig'.sinks ∧
        (∀ e ∈ released, e.on = false ∧ e.index = -1) ∧
        (rendering.result.state ≠ .halted → AllOff (rendering.events ++ released))) ∧
      (∀ M, q.limits.maxSteps = some M → 0 ≤ M → M ≤ reach → p.Modest →
        ∃ rig' rendering, render p q rig patience = (rig', .ok rendering)) ∧
      ∀ rig' o, render p q rig patience = (rig', .error (.overflow o)) →
        ∃ n errors, (load p).Calm n ∧ ((load p).steps n).Breaks o ∧
          Accounted r rig.sinks ((load p).emitted n) (r.heard ((load p).emitted n)) errors
            rig'.sinks :=
  ⟨fun _ _ h => returns_off hq hrig h,
    fun _ hM h0 hle hp => returns_of_modest hp hM h0 hle rig patience,
    fun _ _ h => breaks_off hq hrig h⟩

/-- A looping program, stopped with a note on. -/
theorem render_turns_off_mixed : ∃ rig' rendering n released errors,
    render Machine.mixedTimes (upTo { default := some "main" } 2)
        { sinks := [("main", Sink.recording)] } 0 = (rig', .ok rendering) ∧
      rendering.result.state = .cancelled ∧
      Accounted { default := some "main" } [("main", Sink.recording)]
        ((load Machine.mixedTimes).emitted n ++ released) (rendering.events ++ released) errors
        rig'.sinks ∧
      AllOff (rendering.events ++ released) := by
  have hreliable : Sinks.Reliable [("main", Sink.recording)] :=
    List.forall_mem_singleton.mpr fun _ _ => rfl
  have hmodest : Machine.mixedTimes.Modest := by decide +kernel
  obtain ⟨hoff, hreturns, -⟩ := render_turns_off (q := upTo { default := some "main" } 2) rfl
    Machine.mixedTimes { sinks := [("main", Sink.recording)] } hreliable 0
  obtain ⟨rig', rendering, hrender⟩ := hreturns 2 rfl (by decide) (by decide +kernel) hmodest
  have hstate : (render Machine.mixedTimes (upTo { default := some "main" } 2)
      { sinks := [("main", Sink.recording)] } 0).2.toOption.map (·.result.state) =
        some .cancelled := by decide +kernel
  rw [hrender] at hstate
  have hcancelled : rendering.result.state = .cancelled := Option.some.inj hstate
  obtain ⟨n, released, errors, haccounted, -, hsilent⟩ := hoff rig' rendering hrender
  exact ⟨rig', rendering, n, released, errors, hrender, hcancelled, haccounted,
    hsilent (by rw [hcancelled]; decide)⟩

/-! ## A note that stays on -/

open Source

def sendLine : List Char :=
  ['S', 'E', 'N', 'D', ' ', 'N', 'O', 'T', 'E', 'O', 'N', ' ', '1', ',', ' ', '6', '0', ',', ' ',
    '1', '0', '0']

/-- A note, and a wait of `n` nines in minutes. -/
def heldText (n : Nat) : String := String.ofList (sendLine ++ (['\n'] ++ ninesLine n))

def held (w : Wait) : Program where
  instructions := #[.send ⟨true, 0, 60, 100, none, ⟨1, 1⟩⟩, .wait w]

set_option maxRecDepth 4000 in
theorem readLine_send : readLine 1 sendLine =
    .ok (some (.plain (.send ⟨true, 0, 60, 100, none, ⟨1, 1⟩⟩))) := by
  cbv

theorem parse_held {n : Nat} (hn : n < Text.digitLimit) : parse (heldText (n + 1)) none =
    .ok [.send ⟨true, 0, 60, 100, none, ⟨1, 1⟩⟩, .wait (ninesWait 2 (n + 1))] := by
  have hslash : '/' ∉ sendLine ++ (['\n'] ++ ninesLine (n + 1)) := by
    rw [List.mem_append, List.mem_append]
    exact not_or.mpr ⟨by decide, not_or.mpr ⟨by decide, ninesLine_no_slash n⟩⟩
  have hlines : Text.lines (sendLine ++ (['\n'] ++ ninesLine (n + 1))) =
      [sendLine, ninesLine (n + 1)] := by
    rw [Text.lines_cut (show ∀ c ∈ sendLine, Text.isLineBreak c = false by simp [sendLine, Text.isLineBreak]) (.single rfl),
      Text.lines_last (ninesLine_no_break n), if_neg (by simp [ninesLine])]
  rw [parse, tree, heldText, String.toList_ofList, blankComments_eq hslash, opening?,
    openingFrom?_eq_none hslash, hlines]
  simp only [readLines, readLine_send, readLine_nines _ hn]
  rfl

theorem compile_held {n : Nat} (hn : n < Text.digitLimit) :
    compile (heldText (n + 1)) none = .ok (held (ninesWait 2 (n + 1))) := by
  rw [compile, parse_held hn]
  simp [link, Link.program, Link.emitAll, Link.emit, Link.resolve, Link.State.push, held]

/-- A request for anything, with the limits that a render has if none are given. -/
def anything : Request where
  limits := {}
  router := some { default := some "main" }

/-- The note was sent before the wait turned out to be too long, and nothing after it. -/
theorem held_note_stays_on : ∃ p, compile (heldText 308) none = .ok p ∧
    (render p anything { sinks := [("main", Sink.recording)] } 0).2.map (·.events) =
      .error (.overflow .infinityToInteger) ∧
    (render p anything { sinks := [("main", Sink.recording)] } 0).1.sinks.map (·.2.receipts) =
      [[.event ⟨.zero, 0, true, 0, 60, 100, none, 0⟩]] ∧
    ¬AllOff [⟨.zero, 0, true, 0, 60, 100, none, 0⟩] := by
  refine ⟨_, compile_held (show 307 < Text.digitLimit by decide), ?_⟩
  have hn : Text.number (List.replicate 308 '9') = 10 ^ 308 - 1 := by
    have := number_nines 308
    omega
  rw [ninesWait, hn]
  decide +kernel

end Render

end Ostinato
