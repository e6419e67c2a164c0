import Ostinato.Proofs.Endings

/-!
# Every event is accounted for

`Dispatched` follows events through a router, one after the other: each is `Received` by the sink of
its output, or `Refused` with one fault, and never both. So the events that were delivered and the
faults of the others interleave to the order of dispatch, and what a sink has kept in the end is what
it was delivered (`Dispatched.receipts`). Live and offline runs dispatch what their machine emits in
this way, and what they report is drawn from these lists.
-/

namespace Ostinato

open Machine (load)

/-! ## What sinks keep -/

inductive Receipt where
  | event (e : Event)
  | message (m : Midi.Message)
  | osc (m : OscMessage)
  deriving Repr, DecidableEq

namespace Sink

def receipts : Sink → List Receipt
  | null => []
  | recorder _ _ _ events => events.toList.map .event
  | device _ sent _ => sent.toList.map .message
  | osc _ sent => sent.toList.map .osc

def receipt (s : Sink) (e : Event) : List Receipt :=
  match s with
  | null => []
  | recorder .. => [.event e]
  | device .. =>
    match Midi.Message.ofEvent e with
    | .ok m => [.message m]
    | .error _ => []
  | osc base _ => [.osc ⟨base ++ "/" ++ e.kindName, e.channel, e.pitch, e.velocity⟩]

theorem send_receipt (s : Sink) (e e' : Event) : (s.send e).1.receipt e' = s.receipt e' := by
  cases s with
  | recorder fails complaint sends events =>
    unfold send
    dsimp only
    split <;> rfl
  | device name sent closed =>
    unfold send
    dsimp only
    split <;> rfl
  | _ => rfl

theorem send_receipts {s s' : Sink} {e : Event} (h : s.send e = (s', none)) :
    s'.receipts = s.receipts ++ s.receipt e := by
  cases s with
  | recorder fails complaint sends events =>
    unfold send at h
    dsimp only at h
    split at h
    · cases h
    · cases h
      simp [receipts, receipt]
  | device name sent closed =>
    unfold send at h
    dsimp only at h
    split at h
    · rename_i m hm
      cases h
      simp [receipts, receipt, hm]
    · cases h
  | osc base sent =>
    cases h
    simp [receipts, receipt]
  | null =>
    cases h
    rfl

theorem send_refused {s s' : Sink} {e : Event} {f : OutputFault} (h : s.send e = (s', some f)) :
    s'.receipts = s.receipts := by
  cases s with
  | recorder fails complaint sends events =>
    unfold send at h
    dsimp only at h
    split at h <;> cases h
    rfl
  | device name sent closed =>
    unfold send at h
    dsimp only at h
    split at h <;> cases h
    rfl
  | _ => cases h

end Sink

namespace Sinks

/-- The sink with an id. What is sent to an id without one is discarded. -/
def sink (sinks : Sinks) (id : String) : Sink := (sinks.get? id).getD .null

theorem get?_put (sinks : Sinks) (id id' : String) (s : Sink) :
    (sinks.put id s).get? id' = if id' = id then some s else sinks.get? id' := by
  unfold get?
  by_cases h : id' = id
  · subst h
    rw [if_pos rfl]
    induction sinks with
    | nil => exact List.lookup_cons_self
    | cons entry rest ih =>
      unfold put
      split
      · rename_i hk
        rw [hk]
        exact List.lookup_cons_self
      · rename_i hk
        rw [List.lookup_cons, beq_eq_false_iff_ne.mpr (Ne.symm hk)]
        exact ih
  · have hid : (id' == id) = false := beq_eq_false_iff_ne.mpr h
    rw [if_neg h]
    induction sinks with
    | nil =>
      unfold put
      rw [List.lookup_cons, hid]
    | cons entry rest ih =>
      unfold put
      split
      · rename_i hk
        rw [List.lookup_cons, List.lookup_cons, hk, hid]
      · rw [List.lookup_cons, List.lookup_cons, ih]

theorem sink_put (sinks : Sinks) (id id' : String) (s : Sink) :
    (sinks.put id s).sink id' = if id' = id then s else sinks.sink id' := by
  unfold sink
  rw [get?_put]
  split <;> rfl

end Sinks

/-! ## One event -/

/-- The sink that an event is for, if its output is bound to one. -/
def Router.target? (r : Router) (e : Event) : Option String :=
  match r.resolve e.output with
  | .ok id => id
  | .error _ => none

/-- An event is received by the sink that its output is bound to, the default one if it names none,
and by no other. -/
inductive Received (r : Router) (sinks : Sinks) (e : Event) : Sinks → Prop where
  /-- Without a default sink a note for the default output is discarded. -/
  | discarded : e.output = none → r.default = none → Received r sinks e sinks
  | taken {id : String} {sinks' : Sinks} : r.resolve e.output = .ok (some id) →
      (sinks.sink id).send e = (sinks'.sink id, none) →
      (∀ other, other ≠ id → sinks'.sink other = sinks.sink other) → Received r sinks e sinks'

/-- An event is received by no sink, and there is one fault. -/
inductive Refused (r : Router) (sinks : Sinks) (e : Event) : OutputFault → Sinks → Prop where
  | unbound {name : OutputName} : e.output = some name → r.binding? name = none →
      Refused r sinks e (.unknownOutput name (some e.index)) sinks
  /-- The fault is the sink's own. -/
  | failed {id : String} {f : OutputFault} {sinks' : Sinks} : r.resolve e.output = .ok (some id) →
      (sinks.sink id).send e = (sinks'.sink id, some f) →
      (∀ other, other ≠ id → sinks'.sink other = sinks.sink other) → Refused r sinks e f sinks'

theorem sendTo_sinks (sinks : Sinks) (id : String) (e : Event) :
    (sinks.sink id).send e = ((Router.sendTo { sinks := sinks } id e).1.sinks.sink id,
        (Router.sendTo { sinks := sinks } id e).2) ∧
      ∀ other, other ≠ id →
        (Router.sendTo { sinks := sinks } id e).1.sinks.sink other = sinks.sink other := by
  have hdiscard (h : sinks.sink id = .null) :
      (sinks.sink id).send e = ((Router.reportDiscard { sinks := sinks } e).sinks.sink id, none) := by
    show (sinks.sink id).send e = (sinks.sink id, none)
    rw [h]
    rfl
  unfold Router.sendTo
  dsimp only
  split
  · rename_i hget
    exact ⟨hdiscard (by rw [Sinks.sink, hget]; rfl), fun _ _ => rfl⟩
  · rename_i hget
    exact ⟨hdiscard (by rw [Sinks.sink, hget]; rfl), fun _ _ => rfl⟩
  · rename_i s _ hget
    have hsink : sinks.sink id = s := by
      rw [Sinks.sink, hget]
      rfl
    rw [hsink]
    refine ⟨?_, fun other hother => ?_⟩
    · rw [Sinks.sink_put, if_pos rfl]
    · rw [Sinks.sink_put, if_neg hother]

/-- What becomes of an event: it is received, or refused with a fault. -/
def Fate (r : Router) (sinks : Sinks) (e : Event) : Sinks × Option OutputFault → Prop
  | (sinks', none) => Received r sinks e sinks'
  | (sinks', some f) => Refused r sinks e f sinks'

theorem sendTo_fate {r : Router} {sinks : Sinks} {e : Event} {id : String}
    (h : r.resolve e.output = .ok (some id)) :
    Fate r sinks e ((Router.sendTo { sinks := sinks } id e).1.sinks,
      (Router.sendTo { sinks := sinks } id e).2) := by
  obtain ⟨hsend, hother⟩ := sendTo_sinks sinks id e
  cases hf : (Router.sendTo { sinks := sinks } id e).2 with
  | none => exact .taken h (hf ▸ hsend) hother
  | some f => exact .failed h (hf ▸ hsend) hother

theorem post_fate (r : Router) (sinks : Sinks) (e : Event) : Fate r sinks e (r.post sinks e) := by
  unfold Router.post Router.dispatch
  cases ho : e.output with
  | none =>
    have hresolve : r.resolve none = .ok r.default := rfl
    cases hd : r.default with
    | none =>
      rw [hresolve, hd]
      exact .discarded ho hd
    | some id =>
      rw [hresolve, hd]
      exact sendTo_fate (by rw [ho, hresolve, hd])
  | some name =>
    cases hl : r.binding? name with
    | none =>
      have hresolve : r.resolve (some name) = .error (.unknownOutput name none) := by
        rw [Router.resolve, hl]
      rw [hresolve]
      exact .unbound ho hl
    | some id =>
      have hresolve : r.resolve (some name) = .ok (some id) := by
        rw [Router.resolve, hl]
      rw [hresolve]
      exact sendTo_fate (by rw [ho, hresolve])

/-! ## Many events -/

/-- Events are dispatched in order, once each. The events that are received and the faults of the
others interleave to that order. -/
inductive Dispatched (r : Router) : Sinks → List Event → List Event → List OutputFault → Sinks → Prop
  | nil {sinks : Sinks} : Dispatched r sinks [] [] [] sinks
  | received {sinks sinks' sinks'' : Sinks} {e : Event} {es delivered : List Event}
      {errors : List OutputFault} : Received r sinks e sinks' →
      Dispatched r sinks' es delivered errors sinks'' →
      Dispatched r sinks (e :: es) (e :: delivered) errors sinks''
  | refused {sinks sinks' sinks'' : Sinks} {e : Event} {f : OutputFault} {es delivered : List Event}
      {errors : List OutputFault} : Refused r sinks e f sinks' →
      Dispatched r sinks' es delivered errors sinks'' →
      Dispatched r sinks (e :: es) delivered (f :: errors) sinks''

section
variable {r : Router} {sinks sinks' : Sinks} {es delivered : List Event} {errors : List OutputFault}
  {e : Event} {f : OutputFault}

theorem dispatched_books (b : Books) (es : List Event) : ∃ delivered errors,
    Dispatched r b.sinks es delivered errors (es.foldl (Books.enter r) b).sinks ∧
      (es.foldl (Books.enter r) b).delivered = b.delivered ++ delivered ∧
      (es.foldl (Books.enter r) b).errors = b.errors ++ errors := by
  induction es generalizing b with
  | nil => exact ⟨[], [], .nil, by simp, by simp⟩
  | cons e rest ih =>
    have hfate := post_fate r b.sinks e
    obtain ⟨delivered, errors, hrest, hdelivered, herrors⟩ := ih (b.enter r e)
    rw [List.foldl_cons]
    rcases hpost : r.post b.sinks e with ⟨sinks', _ | f⟩
    all_goals rw [hpost] at hfate
    · have henter : b.enter r e = ⟨sinks', b.delivered ++ [e], b.errors⟩ := by
        rw [Books.enter, hpost]
      rw [henter] at hrest hdelivered herrors ⊢
      refine ⟨e :: delivered, errors, .received hfate hrest, ?_, herrors⟩
      rw [hdelivered, List.append_assoc, List.singleton_append]
    · have henter : b.enter r e = ⟨sinks', b.delivered, b.errors ++ [f]⟩ := by
        rw [Books.enter, hpost]
      rw [henter] at hrest hdelivered herrors ⊢
      refine ⟨delivered, f :: errors, .refused hfate hrest, hdelivered, ?_⟩
      rw [herrors, List.append_assoc, List.singleton_append]

theorem Dispatched.length (h : Dispatched r sinks es delivered errors sinks') :
    delivered.length + errors.length = es.length := by
  induction h with
  | nil => rfl
  | received _ _ ih =>
    simp only [List.length_cons]
    omega
  | refused _ _ ih =>
    simp only [List.length_cons]
    omega

/-- What a sink keeps of some events that it is the target of. -/
def Router.share (r : Router) (id : String) (s : Sink) (es : List Event) : List Receipt :=
  (es.filter (r.target? · == some id)).flatMap s.receipt

theorem sink_receipt (id : String) {target : String} {fault : Option OutputFault}
    (hsend : (sinks.sink target).send e = (sinks'.sink target, fault))
    (hother : ∀ other, other ≠ target → sinks'.sink other = sinks.sink other) :
    (sinks'.sink id).receipt = (sinks.sink id).receipt := by
  by_cases h : id = target
  · subst h
    have hsame := (sinks.sink id).send_receipt e
    rw [hsend] at hsame
    exact funext hsame
  · rw [hother id h]

theorem Received.sink (h : Received r sinks e sinks') (id : String) :
    (sinks'.sink id).receipts = (sinks.sink id).receipts ++ r.share id (sinks.sink id) [e] ∧
      (sinks'.sink id).receipt = (sinks.sink id).receipt := by
  unfold Router.share
  cases h with
  | discarded ho hd =>
    have htarget : r.target? e = none := by
      rw [Router.target?, ho, Router.resolve, hd]
    simp [htarget]
  | @taken target _ hr hsend hother =>
    have htarget : r.target? e = some target := by
      rw [Router.target?, hr]
    refine ⟨?_, sink_receipt id hsend hother⟩
    by_cases h : id = target
    · subst h
      simpa [htarget] using Sink.send_receipts hsend
    · simp [htarget, Ne.symm h, hother id h]

theorem Refused.sink (h : Refused r sinks e f sinks') (id : String) :
    (sinks'.sink id).receipts = (sinks.sink id).receipts ∧
      (sinks'.sink id).receipt = (sinks.sink id).receipt := by
  cases h with
  | unbound => exact ⟨rfl, rfl⟩
  | @failed target _ _ hr hsend hother =>
    refine ⟨?_, sink_receipt id hsend hother⟩
    by_cases h : id = target
    · subst h
      exact Sink.send_refused hsend
    · rw [hother id h]

theorem Dispatched.receipts (h : Dispatched r sinks es delivered errors sinks') (id : String) :
    (sinks'.sink id).receipts = (sinks.sink id).receipts ++ r.share id (sinks.sink id) delivered := by
  induction h with
  | nil => exact (List.append_nil _).symm
  | @received _ _ _ e _ delivered _ hr _ ih =>
    obtain ⟨hreceipts, hreceipt⟩ := hr.sink id
    rw [ih, hreceipts, List.append_assoc]
    congr 1
    unfold Router.share
    rw [hreceipt, ← List.flatMap_append, ← List.filter_append, List.singleton_append]
  | refused hr _ ih =>
    obtain ⟨hreceipts, hreceipt⟩ := hr.sink id
    rw [ih, hreceipts, Router.share, Router.share, hreceipt]

/-- What has become of some events that were dispatched. -/
structure Accounted (r : Router) (sinks : Sinks) (es delivered : List Event)
    (errors : List OutputFault) (sinks' : Sinks) : Prop where
  /-- In order, once each, received by a sink or refused with a fault. -/
  order : Dispatched r sinks es delivered errors sinks'
  count : delivered.length + errors.length = es.length
  /-- Every sink has kept what was delivered to it, and nothing else. -/
  receipts : ∀ id,
    (sinks'.sink id).receipts = (sinks.sink id).receipts ++ r.share id (sinks.sink id) delivered

theorem Dispatched.accounted (h : Dispatched r sinks es delivered errors sinks') :
    Accounted r sinks es delivered errors sinks' := ⟨h, h.length, h.receipts⟩

theorem books_accounted (r : Router) (sinks : Sinks) (es : List Event) :
    Accounted r sinks es (r.books sinks es).delivered (r.books sinks es).errors
      (r.books sinks es).sinks := by
  obtain ⟨delivered, errors, h, hdelivered, herrors⟩ := dispatched_books { sinks := sinks } es
  rw [List.nil_append] at hdelivered herrors
  rw [Router.books, hdelivered, herrors]
  exact h.accounted

/-- All that was dispatched after that are note-offs, which no instruction has sent. -/
def Released (r : Router) (sinks sinks' : Sinks) : Prop :=
  ∃ es delivered errors, Accounted r sinks es delivered errors sinks' ∧
    ∀ e ∈ es, e.on = false ∧ e.index = -1

theorem Outset.released (o : Outset) (n : Nat) (m : Machine) :
    Released o.router (o.books n).sinks (o.finalSinks n m) := by
  obtain ⟨delivered, errors, h, -⟩ := dispatched_books (o.books n) (lastWords m (o.books n).delivered)
  rw [← o.finalSinks_eq] at h
  refine ⟨_, delivered, errors, h.accounted, fun e he => ?_⟩
  obtain ⟨-, -, hon, -, hindex⟩ := (lastWords_releases m (o.books n).delivered).noteOff e he
  exact ⟨hon, hindex⟩

end

/-- A run of a program through a router, its machine left in some state after `N` steps, is
accounted for with the events `es`. -/
structure Tally (p : Program) (r : Router) (sinks sinks' : Sinks) (m : Machine) (N : Nat)
    (es delivered : List Event) (errors : List OutputFault) : Prop where
  machine : m = (load p).steps N ∨ m = ((load p).steps N).cancel
  events : ∃ between, Accounted r sinks es delivered errors between ∧ Released r between sinks'

/-! ## Live runs -/

theorem Live.Ends.tally {o : Outset} {a : Account} {e : Live.Ending} (h : Live.Ends o a e) :
    ∃ N delivered errors,
      Tally o.program o.router o.sinks a.sinks a.machine N ((load o.program).emitted N) delivered
        errors ∧
      ∀ result, e = .ok result → result = Run.result a.machine delivered.length errors "" := by
  have htally (n : Nat) (hm : a.machine = o.machine n ∨ a.machine = (o.machine n).cancel)
      (hsinks : a.sinks = o.finalSinks n a.machine) :
      Tally o.program o.router o.sinks a.sinks a.machine n ((load o.program).emitted n)
        (o.books n).delivered (o.books n).errors :=
    ⟨hm, _, books_accounted o.router o.sinks _, hsinks ▸ o.released n a.machine⟩
  cases e with
  | ok r =>
    obtain ⟨n, hover, hsinks, hr⟩ := h
    refine ⟨n, _, _, htally n (hover.stopped.imp And.left And.left) hsinks, fun result he => ?_⟩
    cases he
    exact hr
  | error f =>
    obtain ⟨n, hm, hsinks⟩ := h
    exact ⟨n, _, _, htally n hm hsinks, fun _ he => by cases he⟩

/-! ## Renders -/

namespace Render

/-- The result of a run as it would be if every event had been delivered. -/
def course (r : RunResult) : RunResult :=
  { r with emitted := r.emitted + r.outputErrors.length, outputErrors := [] }

/-- Two renders that have come equally far. What has become of their events may differ. -/
structure Alike (s t : State) : Prop where
  machine : s.machine = t.machine
  reason : s.reason = t.reason
  checks : s.checks = t.checks
  handled : s.events.size + s.errors.size = t.events.size + t.errors.size

section
variable {q : Request} {p : Program} {sinks : Sinks} {n N : Nat} {s t : State}

/-- The events that a limit on time does not cut off. -/
def Request.timely (q : Request) (es : List Event) : List Event :=
  es.filter fun e => (q.limits.timeReason? e.time e.tick).isNone

/-- A render has handled every event of its machine that no limit on time cuts off. -/
theorem Ended.timely (h : Ended q p sinks n N s) :
    q.timely ((load p).emitted N) = (load p).emitted n := by
  have hearly : q.timely ((load p).emitted n) = (load p).emitted n := by
    unfold Request.timely
    rw [List.filter_eq_self]
    intro e he
    rw [h.early e he]
    rfl
  cases h.cause with
  | done => exact hearly
  | cut _ _ hcut =>
    cases hcut with
    | @late e he ht =>
      rw [Machine.emitted_succ, he]
      show q.timely ((load p).emitted n ++ [e]) = _
      have hlate : (q.limits.timeReason? e.time e.tick).isNone = false :=
        Option.isNone_eq_false_iff.mpr (Option.isSome_iff_ne_none.mpr ht)
      unfold Request.timely at hearly ⊢
      rw [List.filter_append, hearly, List.filter_singleton, hlate]
      exact List.append_nil _
    | _ => exact hearly

theorem State.collect_handled (s : State) (router : Option Router) (e : Event) :
    (s.collect router e).events.size + (s.collect router e).errors.size =
      s.events.size + s.errors.size + 1 := by
  unfold collect
  cases router with
  | none =>
    simp only [Array.size_push]
    omega
  | some r =>
    dsimp only
    split <;> simp only [Array.size_push] <;> omega

theorem State.collect_checks (s : State) (router : Option Router) (e : Event) :
    (s.collect router e).checks = s.checks := by
  unfold collect
  cases router with
  | none => rfl
  | some r =>
    dsimp only
    split <;> rfl

theorem Alike.collect (h : Alike s t) (router router' : Option Router) (e : Event) :
    Alike (s.collect router e) (t.collect router' e) := by
  obtain ⟨hsm, hsr⟩ := s.collect_machine router e
  obtain ⟨htm, htr⟩ := t.collect_machine router' e
  refine ⟨?_, ?_, ?_, ?_⟩
  · rw [hsm, htm, h.machine]
  · rw [hsr, htr, h.reason]
  · rw [s.collect_checks, t.collect_checks, h.checks]
  · rw [s.collect_handled, t.collect_handled, h.handled]

theorem Alike.stop (h : Alike s t) (reason : String) : Alike (s.stop reason) (t.stop reason) :=
  ⟨congrArg Machine.cancel h.machine, rfl, h.checks, h.handled⟩

theorem Alike.after (h : Alike s t) (hmax : q.limits.maxEvents = none) (router : Option Router)
    (out : Step) : Alike (s.after q out).1 (t.after { q with router := router } out).1 ∧
      (s.after q out).2 = (t.after { q with router := router } out).2 := by
  have hroom (count : Nat) : q.limits.eventsReason? count = none := by
    rw [Limits.eventsReason?, hmax]
  unfold State.after
  cases out with
  | emit e =>
    dsimp only
    split
    · exact ⟨h.stop _, rfl⟩
    · rw [hroom, hroom]
      exact ⟨h.collect _ _ e, rfl⟩
  | suspend due ticks =>
    dsimp only
    rw [h.machine]
    split
    · exact ⟨h.stop _, rfl⟩
    · exact ⟨h, rfl⟩
  | _ => exact ⟨h, rfl⟩

/-- Without a limit on the number of events a router makes no difference to the machine. -/
theorem Alike.turn (h : Alike s t) (hmax : q.limits.maxEvents = none) (router : Option Router) :
    Alike (turn q s).1 (turn { q with router := router } t).1 ∧
      (turn q s).2 = (turn { q with router := router } t).2 := by
  have hcancelled : isCancelled { q with router := router } t.checks = isCancelled q s.checks := by
    rw [h.checks]
    rfl
  have hchecks : s.checks + 1 = t.checks + 1 := congrArg (· + 1) h.checks
  unfold Render.turn
  dsimp only
  rw [hcancelled, ← h.machine]
  split
  · exact ⟨⟨rfl, rfl, hchecks, h.handled⟩, rfl⟩
  · split
    · exact ⟨⟨rfl, rfl, hchecks, h.handled⟩, rfl⟩
    · refine Alike.after ?_ hmax router _
      exact ⟨rfl, h.reason, hchecks, h.handled⟩

theorem Alike.turns (h : Alike s t) (hmax : q.limits.maxEvents = none) (router : Option Router)
    (fuel : Nat) : Alike (turns q fuel s).1 (turns { q with router := router } fuel t).1 ∧
      (turns q fuel s).2 = (turns { q with router := router } fuel t).2 := by
  induction fuel generalizing s t with
  | zero => exact ⟨h, rfl⟩
  | succ fuel ih =>
    obtain ⟨hturn, hverdict⟩ := h.turn hmax router
    unfold Render.turns
    rw [← h.machine]
    split
    · exact ⟨h, rfl⟩
    · rcases hs : Render.turn q s with ⟨s', v⟩
      rcases ht : Render.turn { q with router := router } t with ⟨t', v'⟩
      rw [hs, ht] at hturn hverdict
      cases hverdict
      cases v with
      | more => exact ih hturn
      | «over» => exact ⟨hturn, rfl⟩
      | overflow o => exact ⟨hturn, rfl⟩

/-- So renders through different routers, or without one, end alike. -/
theorem render_alike (hmax : q.limits.maxEvents = none) (p : Program) (router : Option Router)
    (rig rig' : Rig) (patience : Nat) :
    (render p q rig patience).2.map (course ·.result) =
      (render p { q with router := router } rig' patience).2.map (course ·.result) := by
  have hstart : Alike
      { machine := load p, rig := { rig with journal := Machine.reportLoad rig.journal } }
      { machine := load p, rig := { rig' with journal := Machine.reportLoad rig'.journal } } :=
    ⟨rfl, rfl, rfl, rfl⟩
  obtain ⟨hturns, hverdict⟩ := hstart.turns hmax router (turnBound q.limits patience)
  unfold render
  dsimp only
  split
  · rfl
  · rcases hs : turns q (turnBound q.limits patience)
      { machine := load p, rig := { rig with journal := Machine.reportLoad rig.journal } } with ⟨s, v⟩
    rcases ht : turns { q with router := router } (turnBound q.limits patience)
      { machine := load p, rig := { rig' with journal := Machine.reportLoad rig'.journal } } with
      ⟨t, v'⟩
    rw [hs, ht] at hturns hverdict
    cases hverdict
    cases v with
    | more => rfl
    | overflow o => rfl
    | «over» =>
      show Except.ok (course (Run.result s.machine _ _ s.reason)) =
        Except.ok (course (Run.result t.machine _ _ t.reason))
      have hhandled : s.events.size + s.errors.toList.length = t.events.size + t.errors.toList.length := by
        rw [Array.length_toList, Array.length_toList]
        exact hturns.handled
      unfold course Run.result
      dsimp only
      rw [hturns.machine, hturns.reason, hhandled]

variable {r : Router} {rig rig' : Rig} {patience : Nat} {rendering : Rendering}

theorem Ended.plain (h : Ended q p sinks n N s) (hq : q.router = none) :
    s.events.toList = (load p).emitted n ∧ s.errors.toList = [] := by
  have hevents := h.holds.events
  have herrors := h.holds.errors
  unfold Request.books at hevents herrors
  rw [hq] at hevents herrors
  exact ⟨hevents, herrors⟩

theorem render_plain (hmax : q.limits.maxEvents = none)
    (h : render p q rig patience = (rig', .ok rendering)) (n : Nat)
    (hn : rendering.result.emitted + rendering.result.outputErrors.length =
      ((load p).emitted n).length) (rig₂ : Rig) :
    ∃ rig₂' plain, render p { q with router := none } rig₂ patience = (rig₂', .ok plain) ∧
      plain.events = (load p).emitted n ∧ course plain.result = course rendering.result := by
  have halike := render_alike hmax p none rig rig₂ patience
  rcases hplain : render p { q with router := none } rig₂ patience with ⟨rig₂', plain⟩
  rw [h, hplain] at halike
  cases plain with
  | error f => cases halike
  | ok plain =>
    have hcourse : course rendering.result = course plain.result := Except.ok.inj halike
    refine ⟨rig₂', plain, rfl, ?_, hcourse.symm⟩
    obtain ⟨k, N, s, hended, hfinish⟩ := ended_of_render hplain
    obtain ⟨hevents, herrors⟩ := hended.plain rfl
    cases hfinish
    have hcount : rendering.result.emitted + rendering.result.outputErrors.length =
        s.events.size + s.errors.toList.length := congrArg RunResult.emitted hcourse
    -- Both are what the machine has emitted after some steps, and equally long.
    have hlength : ((load p).emitted n).length = ((load p).emitted k).length := by
      rw [← hn, hcount, herrors, ← hevents, Array.length_toList]
      rfl
    show s.events.toList = _
    rw [hevents]
    rcases Nat.le_total k n with hle | hle
    · exact ((load p).emitted_mono hle).eq_of_length hlength.symm
    · exact (((load p).emitted_mono hle).eq_of_length hlength).symm

/-- However a render through a router ends, what its machine emitted is accounted for, save what a
limit on time cuts off, and so is its result. -/
theorem render_tally (hq : q.router = some r)
    (h : render p q rig patience = (rig', .ok rendering)) :
    ∃ N m reason,
      Tally p r rig.sinks rig'.sinks m N (q.timely ((load p).emitted N)) rendering.events
        rendering.result.outputErrors ∧
      rendering.result = Run.result m rendering.events.length rendering.result.outputErrors reason ∧
      (q.limits.maxEvents = none → ∀ rig₂, ∃ rig₂' plain,
        render p { q with router := none } rig₂ patience = (rig₂', .ok plain) ∧
          plain.events = q.timely ((load p).emitted N) ∧
          course plain.result = course rendering.result) := by
  obtain ⟨n, N, s, hended, hfinish⟩ := ended_of_render h
  obtain ⟨hsinks, hevents, hresult⟩ := hended.finish hq
  rw [hfinish] at hsinks hevents hresult
  have herrors : rendering.result.outputErrors = (r.books rig.sinks ((load p).emitted n)).errors := by
    rw [hresult]
    rfl
  have haccounted := books_accounted r rig.sinks ((load p).emitted n)
  have hm : s.machine = (load p).steps N ∨ s.machine = ((load p).steps N).cancel := by
    cases hended.cause with
    | done hm => exact .inl hm
    | cut hm => exact .inr hm
  refine ⟨N, s.machine, s.reason, ⟨hm, (r.books rig.sinks ((load p).emitted n)).sinks, ?_, ?_⟩, ?_,
    fun hmax => ?_⟩
  · rw [hevents, herrors, hended.timely]
    exact haccounted
  · rw [hsinks]
    exact Outset.released ⟨p, r, rig.sinks⟩ n s.machine
  · rw [hevents, herrors]
    exact hresult
  · rw [hended.timely]
    refine render_plain hmax h n ?_
    rw [hresult]
    exact haccounted.count

theorem overflow_accounted (hq : q.router = some r) {o : Overflow}
    (h : render p q rig patience = (rig', .error (.overflow o))) :
    ∃ n delivered errors,
      Accounted r rig.sinks ((load p).emitted n) delivered errors rig'.sinks := by
  obtain ⟨n, s, hstrained, rfl⟩ := strained_of_render h
  exact ⟨n, _, _, hstrained.sinks_eq hq ▸ books_accounted r rig.sinks ((load p).emitted n)⟩

end

end Render

/-! ## Every run -/

open Live (Ending Part Cue Act Player Stage)

/-- **Every event is accounted for once.** What a machine emits in a run is dispatched in order, and
each event is received by the sink its output is bound to, or refused by exactly one fault: an
unbound name with the instruction of the event, or else the fault of the sink. The events that a
render collects and the number that a result reports are those received, the output errors are those
faults. A render leaves out what a limit on time cuts off. Unless there is a limit on the number of
events, what becomes of them makes no difference to a render's machine. -/
theorem events_accounted :
    (∀ (p : Program) (q : Render.Request) (r : Router) (rig rig' : Rig) (patience : Nat)
      (rendering : Rendering),
      q.router = some r → render p q rig patience = (rig', .ok rendering) →
      ∃ N m reason,
        Tally p r rig.sinks rig'.sinks m N (q.timely ((load p).emitted N)) rendering.events
          rendering.result.outputErrors ∧
        rendering.result =
          Run.result m rendering.events.length rendering.result.outputErrors reason ∧
        (q.limits.maxEvents = none → ∀ rig₂, ∃ rig₂' plain,
          render p { q with router := none } rig₂ patience = (rig₂', .ok plain) ∧
            plain.events = q.timely ((load p).emitted N) ∧
            Render.course plain.result = Render.course rendering.result)) ∧
    (∀ (p : Program) (q : Render.Request) (r : Router) (rig rig' : Rig) (patience : Nat)
      (o : Overflow),
      q.router = some r → render p q rig patience = (rig', .error (.overflow o)) →
      ∃ n delivered errors,
        Accounted r rig.sinks ((load p).emitted n) delivered errors rig'.sinks) ∧
    (∀ (p : Program) (q : Render.Request) (router : Option Router) (rig rig₂ : Rig) (patience : Nat),
      q.limits.maxEvents = none →
      (render p q rig patience).2.map (Render.course ·.result) =
        (render p { q with router := router } rig₂ patience).2.map (Render.course ·.result)) ∧
    (∀ (s s' : Stage) (who : Nat) (p : Player) (c : Stage.Cancellation) (fuel : Nat) (e : Ending),
      s.Idle → s.players[who]? = some p → s.runPlayer who c fuel = (s', some e) →
      ∃ p' N delivered errors, s'.players[who]? = some p' ∧
        Tally p.machine.program p.part.router s.rig.sinks s'.rig.sinks p'.machine N
          ((load p.machine.program).emitted N) delivered errors ∧
        ∀ result, e = .ok result → result = Run.result p'.machine delivered.length errors "") ∧
    (∀ (part : Part) (cue : Cue) (fuel : Nat) (a a' : Act) (e : Ending),
      Live.play part cue fuel a = (a', some e) →
      ∃ N delivered errors,
        Tally a.machine.program part.router a.rig.sinks a'.rig.sinks a'.machine N
          ((load a.machine.program).emitted N) delivered errors ∧
        ∀ result, e = .ok result → result = Run.result a'.machine delivered.length errors "") := by
  refine ⟨fun p q r rig rig' patience rendering hq h => Render.render_tally hq h,
    fun p q r rig rig' patience o hq h => Render.overflow_accounted hq h,
    fun p q router rig rig₂ patience hmax => Render.render_alike hmax p router rig rig₂ patience,
    fun s s' who p c fuel e hidle hp h => ?_, fun part cue fuel a a' e h => ?_⟩
  · obtain ⟨p', a, hp', hmachine, hsinks, hends⟩ := Stage.runPlayer_ends hidle hp h
    obtain ⟨N, delivered, errors, htally, hresult⟩ := hends.tally
    rw [hmachine, hsinks] at htally
    rw [hmachine] at hresult
    exact ⟨p', N, delivered, errors, hp', htally, hresult⟩
  · exact (Live.play_ends cue fuel a h).tally

def strandedRequest : Render.Request where
  limits := {}
  router := some { default := some "main" }

/-- One name is not bound, and the sink of the default output fails once. -/
def strandedErrors : List OutputFault :=
  [.unknownOutput "lead" (some 1), .transport "unplugged"]

theorem events_accounted_stranded : ∃ rig' rendering m N s' result m' n delivered,
    render stranded strandedRequest strandedStage.rig 0 = (rig', .ok rendering) ∧
      Tally stranded { default := some "main" } strandedStage.rig.sinks rig'.sinks m N
        (strandedRequest.timely ((load stranded).emitted N)) rendering.events strandedErrors ∧
      rendering.result.emitted = 1 ∧
      strandedStage.runPlayer 0 {} 100 = (s', some (.ok result)) ∧
      Tally stranded { default := some "main" } strandedStage.rig.sinks s'.rig.sinks m' n
        ((load stranded).emitted n) delivered strandedErrors ∧
      delivered.length = 1 := by
  have hrendered : (render stranded strandedRequest strandedStage.rig 0).2.toOption.map
      (fun a => (a.result.outputErrors, a.result.emitted)) = some (strandedErrors, 1) := by
    decide +kernel
  have hplayed : (Live.answer? (strandedStage.runPlayer 0 {} 100).2).map
      (fun a => (a.outputErrors, a.emitted)) = some (strandedErrors, 1) := by decide +kernel
  obtain ⟨result, hresult, hcounts⟩ := Option.map_eq_some_iff.mp hplayed
  have hrun := Live.eq_of_answer? hresult
  obtain ⟨hrenders, -, -, hplays, -⟩ := events_accounted
  rcases hrender : render stranded strandedRequest strandedStage.rig 0 with ⟨rig', f | rendering⟩
  · rw [hrender] at hrendered
    cases hrendered
  · rw [hrender] at hrendered
    obtain ⟨herrors, hemitted⟩ := Prod.mk.inj (Option.some.inj hrendered)
    obtain ⟨N, m, reason, htally, -⟩ := hrenders _ _ _ _ _ _ _ rfl hrender
    obtain ⟨p', n, delivered, errors, -, hlive, hdrawn⟩ :=
      hplays _ _ 0 _ _ _ _ strandedStage_idle rfl hrun
    rw [hdrawn result rfl] at hcounts
    obtain ⟨hrefused, hreceived⟩ := Prod.mk.inj hcounts
    have hsame : errors = strandedErrors := hrefused
    rw [hsame] at hlive
    rw [herrors] at htally
    exact ⟨rig', rendering, m, N, _, result, p'.machine, n, delivered, rfl, htally, hemitted, hrun,
      hlive, hreceived⟩

end Ostinato
