import Ostinato.Proofs.Limits
import Ostinato.Proofs.Recording
import Ostinato.Proofs.Sharing
import Ostinato.Proofs.Playable

/-!
# Delta times

A track says how far each note is from the one before. The deltas up to a note add up to its tick,
that is, to the tick nearest to its time, or to zero if that is earlier (`itemsFrom_dated`): each
delta is the distance to the latest tick so far, and since ticks keep the order of times
(`tickAt_mono`) that is the tick of the note before. So no rounding of one note shows in the next.

Every rendering of a compiled program can be written that way. Its events are in range, those of a
render with a limit on seconds are near enough to have a tick (`Render.near_of_render`), and the
program has no time signature or one that a file can hold (`Link.signature_ok`).
-/

namespace Ostinato

open Binary64

-- The value of these two is too large to be computed with.
attribute [local irreducible] one limit

/-! ## Near times -/

/-- How many seconds from the start a near time is at most. -/
def horizon : Nat := Nat.pow 10 300

def Binary64.IsNear : Binary64 → Prop
  | fin _ mag => mag ≤ horizon * one
  | _ => False

instance : DecidablePred Binary64.IsNear
  | .fin _ mag => inferInstanceAs (Decidable (mag ≤ horizon * one))
  | .nan _ | .inf _ => .isFalse id

theorem Binary64.IsNear.isNumber {x : Binary64} (h : x.IsNear) : x.IsNumber := by
  match x, h with
  | fin s mag, _ => trivial

def SecondsBound.IsNear (b : SecondsBound) : Prop :=
  b.IsNumber ∧ b.place ≤ (((horizon * one : Nat) : Int) : WithTop Int)

theorem near_of_follows {b : SecondsBound} (hb : b.IsNear) {time : Binary64}
    (h0 : zero.le time = true) (h : b.follows time = true) : time.IsNear := by
  obtain ⟨-, hnumber, h0⟩ := le_iff.mp h0
  have hlt := lt_of_lt_of_le ((SecondsBound.follows_iff hb.1 hnumber).mp h) hb.2
  match time, hnumber with
  | inf true, _ => exact absurd h0 (by decide)
  | inf false, _ => exact absurd (WithBot.coe_lt_coe.mp hlt) not_top_lt
  | fin s mag, _ =>
    rw [place_fin, WithBot.coe_lt_coe, WithTop.coe_lt_coe] at hlt
    have h0 : (0 : Int) ≤ if s then -(mag : Int) else mag := by
      rw [zero, place_fin, place_fin, WithBot.coe_le_coe, WithTop.coe_le_coe] at h0
      simpa using h0
    show mag ≤ horizon * one
    generalize horizon * one = most at hlt ⊢
    cases s <;> simp only [if_true, if_false, Bool.false_eq_true] at h0 hlt <;> omega

namespace Midi

/-! ## Ticks -/

theorem horizon_fits : ∃ perTick, secondsPerTick = fin false perTick ∧ 0 < perTick ∧
    nearestMag (one * (horizon * one)) perTick < limit :=
  ⟨secondsPerTick.units, by decide +kernel, by decide +kernel, by decide +kernel⟩

/-- How many ticks a time is from the start, on either side of it. -/
def distance (mag : Nat) : Nat :=
  divNearest (nearestMag (one * mag) secondsPerTick.units) one

theorem tickAt_fin (s : Bool) {mag : Nat} (h : mag ≤ horizon * one) :
    tickAt (fin s mag) = .ok (if s then -(distance mag : Int) else distance mag) := by
  obtain ⟨perTick, hper, hpos, hfits⟩ := horizon_fits
  have hmag : nearestMag (one * mag) perTick < limit :=
    Nat.lt_of_le_of_lt (nearestMag_mono (Nat.mul_le_mul_left one h) _) hfits
  have hquotient : fin s mag / fin false perTick =
      fin (s != false) (nearestMag (one * mag) perTick) := by
    show (if perTick = 0 then _ else roundQuotient (s != false) (one * mag) perTick) = _
    rw [if_neg (by omega), roundQuotient_of_lt hmag]
  unfold tickAt distance
  rw [hper, hquotient, Bool.bne_false]
  rfl

theorem tickAt_near {time : Binary64} (h : time.IsNear) : ∃ tick, tickAt time = .ok tick := by
  match time, h with
  | fin s mag, h => exact ⟨_, tickAt_fin s h⟩

theorem distance_mono {a b : Nat} (h : a ≤ b) : distance a ≤ distance b :=
  divNearest_mono (nearestMag_mono (Nat.mul_le_mul_left one h) _) one

theorem distance_zero : distance 0 = 0 := by decide +kernel

theorem tickAt_mono {x y : Binary64} (hx : x.IsNear) (hy : y.IsNear) (h : x.le y = true) :
    ∃ i j, tickAt x = .ok i ∧ tickAt y = .ok j ∧ i ≤ j := by
  match x, hx, y, hy with
  | fin s a, hx, fin t b, hy =>
    refine ⟨_, _, tickAt_fin s hx, tickAt_fin t hy, ?_⟩
    obtain ⟨-, -, h⟩ := le_iff.mp h
    rw [place_fin, place_fin, WithBot.coe_le_coe, WithTop.coe_le_coe] at h
    cases s <;> cases t <;> simp only [if_true, if_false, Bool.false_eq_true] at h ⊢
    · exact Int.ofNat_le.mpr (distance_mono (by omega))
    · -- Both are zero.
      have ha : a = 0 := by omega
      have hb : b = 0 := by omega
      rw [ha, hb, distance_zero]
      rfl
    · omega
    · exact Int.neg_le_neg (Int.ofNat_le.mpr (distance_mono (by omega)))

/-! ## Deltas -/

/-- An event with valid fields and a near time. -/
structure Datable (e : Event) : Prop extends e.InRange where
  time : e.time.IsNear

/-- Some items are the messages of some events, in order, and the deltas up to each of them, counted
from the tick `last`, add up to its own tick, or to `last` if that is earlier. -/
structure Dated (last : Int) (es : List Event) (items : List (Nat × TrackItem)) : Prop where
  messages : List.Forall₂ (fun e i => ∃ m, Message.ofEvent e = .ok m ∧ i.2 = .message m) es items
  ticks : ∀ k e, es[k]? = some e → ∃ tick, tickAt e.time = .ok tick ∧
    last + ((items.take (k + 1)).map Prod.fst).sum = max last tick

theorem message_ok {e : Event} (h : e.InRange) : ∃ m, Message.ofEvent e = .ok m := by
  unfold Message.ofEvent
  rw [if_neg (not_not_intro h.channel), if_neg (not_not_intro h.pitch),
    if_neg (not_not_intro h.velocity)]
  exact ⟨_, rfl⟩

theorem itemsFrom_dated {es : List Event} (h : ∀ e ∈ es, Datable e)
    (hsorted : es.Pairwise fun a b => a.time.le b.time = true) (last : Int) :
    ∃ items, itemsFrom last es = .ok items ∧ Dated last es items := by
  induction es generalizing last with
  | nil => exact ⟨[], rfl, .nil, by simp⟩
  | cons e rest ih =>
    obtain ⟨hfirst, hrest⟩ := List.pairwise_cons.mp hsorted
    have he := h e List.mem_cons_self
    have hall : ∀ e' ∈ rest, Datable e' := fun e' he' => h e' (List.mem_cons_of_mem e he')
    obtain ⟨m, hm⟩ := message_ok he.toInRange
    obtain ⟨tick, htick⟩ := tickAt_near he.time
    obtain ⟨items, hitems, hdated⟩ := ih hall hrest (max last tick)
    refine ⟨((tick - last).toNat, .message m) :: items, ?_, .cons ⟨m, hm, rfl⟩ hdated.messages, ?_⟩
    · rw [itemsFrom, htick]
      dsimp only
      rw [hm]
      dsimp only
      rw [hitems]
    · rintro (_ | k) e' he'
      · cases he'
        refine ⟨tick, htick, ?_⟩
        simp
        omega
      · rw [List.getElem?_cons_succ] at he'
        obtain ⟨tick', htick', hsum⟩ := hdated.ticks k e' he'
        have hmem : e' ∈ rest := List.mem_of_getElem? he'
        obtain ⟨i, j, hi, hj, hle⟩ := tickAt_mono he.time (hall e' hmem).time (hfirst e' hmem)
        rw [htick] at hi
        rw [htick'] at hj
        cases hi
        cases hj
        refine ⟨tick', htick', ?_⟩
        rw [List.take_succ_cons, List.map_cons, List.sum_cons]
        dsimp only
        omega

theorem signatureItem_no_message {n d : Int} {item : TrackItem} (h : signatureItem n d = .ok item) :
    ∀ m, item ≠ .message m := by
  unfold signatureItem at h
  split at h
  · cases h
  · split at h
    · cases h
    · split at h <;> cases h
      simp

/-- What a track of some events is. Behind a head at tick zero, without notes, it has the events in
order of time, those of one time as they came, and the deltas add up to the tick of each. -/
def Track.Dates (t : Track) (events : List Event) : Prop :=
  ∃ head notes sorted, t.items = head ++ notes ∧
    (∀ i ∈ head, i.1 = 0 ∧ ∀ m, i.2 ≠ .message m) ∧
    sorted.Perm events ∧
    sorted.Pairwise (fun a b => a.time.le b.time = true) ∧
    (∀ x, sorted.filter (·.time.eq x) = events.filter (·.time.eq x)) ∧
    Dated 0 sorted notes

theorem track_dates {events : List Event} (h : ∀ e ∈ events, Datable e)
    {signature : Option (Int × Int)}
    (hs : ∀ s ∈ signature, ∃ item, signatureItem s.1 s.2 = .ok item) :
    ∃ t, track events signature = .ok t ∧ t.Dates events := by
  have hnumber : ∀ e ∈ events, e.time.IsNumber := fun e he => (h e he).time.isNumber
  obtain ⟨hperm, hsorted, hequal⟩ := byTime_stable hnumber
  obtain ⟨items, hitems, hdated⟩ :=
    itemsFrom_dated (fun e he => h e (hperm.subset he)) hsorted 0
  cases signature with
  | none =>
    refine ⟨⟨[(0, .tempo microsecondsPerBeat)] ++ items⟩, ?_, _, items, byTime events, rfl, ?_,
      hperm, hsorted, hequal, hdated⟩
    · unfold track
      rw [hitems]
      rfl
    · simp
  | some s =>
    obtain ⟨item, hitem⟩ := hs s rfl
    refine ⟨⟨[(0, .tempo microsecondsPerBeat), (0, item)] ++ items⟩, ?_, _, items, byTime events,
      rfl, ?_, hperm, hsorted, hequal, hdated⟩
    · unfold track
      dsimp only
      rw [hitem, hitems]
      rfl
    · have hno := signatureItem_no_message hitem
      simpa using hno

end Midi

/-! ## Renderings of compiled programs -/

/-- No time signature, or one that a file can hold. -/
def SettingValue.IsSignature (v : SettingValue) : Prop :=
  v = .absent ∨ ∃ n d, v = .pair n d ∧ Midi.SignatureFits (n, d)

namespace Link

theorem State.set_signature {st st' : State} {s : Setting} (h : st.set s = .ok st')
    (hs : s.InRange) (hst : st.signature.IsSignature) : st'.signature.IsSignature := by
  obtain ⟨-, -, hstore⟩ := State.set_eq_ok.mp h
  cases hs with
  | @signature beats unit _ hb hb255 hu hu64 hp =>
    cases hstore
    obtain ⟨k, hk⟩ := (Source.isPowerOfTwo_iff hu).mp hp
    have hk6 : k ≤ 6 := by
      by_contra hk7
      have : (2 : Int) ^ 7 ≤ 2 ^ k := pow_le_pow_right₀ (by decide) (by omega)
      omega
    exact .inr ⟨beats, unit, rfl, ⟨hb, hb255⟩, k, hk6, hk⟩
  | _ =>
    cases hstore
    exact hst

theorem Walk.signature {scope : List String} {st st' : State} {tree : List Statement}
    (h : Walk scope st tree st') (htree : Forest.Each Statement.InRange tree)
    (hst : st.signature.IsSignature) : st'.signature.IsSignature := by
  induction h with
  | nil => exact hst
  | setting hset _ ih =>
    obtain ⟨hs, hrest⟩ := htree.leaf rfl
    exact ih hrest (State.set_signature hset hs hst)
  | label _ _ _ ihBody ihRest =>
    obtain ⟨-, hbody, hrest⟩ := htree.label
    exact ihRest hrest (ihBody hbody hst)
  | @loop _ st st₁ _ count _ _ pos _ _ ihBody ihRest =>
    obtain ⟨-, hbody, hrest⟩ := htree.loop
    have hclose : (st₁.closeLoop count st.code.size pos).signature = st₁.signature := by
      unfold State.closeLoop
      split <;> rfl
    exact ihRest hrest (hclose ▸ ihBody hbody hst)
  | play _ _ ih | tempo _ ih => exact ih (htree.leaf rfl).2 hst
  | @plain _ _ _ s _ hs _ ih =>
    have hleaf : s.isBlock = false := by
      cases s with
      | label | loop => cases hs
      | _ => rfl
    exact ih (htree.leaf hleaf).2 hst

theorem signature_ok {tree : List Statement} {name : Option String} {p : Program}
    (htree : Forest.Each Statement.InRange tree) (h : link tree name = .ok p) :
    p.timeSignature.IsSignature := by
  unfold link program at h
  cases he : emitAll [] {} tree with
  | error e => simp [he] at h
  | ok st =>
    have hsignature := (walk_of_emitAll he).signature htree (.inl rfl)
    cases hr : resolve st.declared 0 st.code.toList with
    | error e => simp [he, hr] at h
    | ok out =>
      simp only [he, hr, Except.ok.injEq] at h
      subst h
      exact hsignature

end Link

theorem Machine.Orderly.zero_le_emitted {m : Machine} (h : m.Orderly) (n : Nat) :
    ∀ e ∈ m.emitted n, zero.le e.time = true := fun e he =>
  Binary64.le_trans h.now.isSpan.zero_le (h.emitted_onward n e he).1

/-- What a render with a near limit on seconds collects is in range and near. -/
theorem Render.near_of_render {p : Program} {q : Render.Request} {rig rig' : Rig} {patience : Nat}
    {r : Rendering} {b : SecondsBound} (hb : b.IsNear) (hmax : q.limits.maxSeconds = some b)
    (h : render p q rig patience = (rig', .ok r)) : ∀ e ∈ r.events, Midi.Datable e := by
  obtain ⟨n, N, s, hended, hfinish⟩ := Render.ended_of_render h
  cases hfinish
  intro e he
  have hemitted : e ∈ (Machine.load p).emitted n := by
    have hevents : s.events.toList = _ := hended.holds.events
    have he : e ∈ s.events.toList := he
    rw [hevents, Render.Request.books] at he
    split at he
    · exact he
    · exact mem_of_delivered he
  refine ⟨(Machine.load p).emitted_inRange n e hemitted, ?_⟩
  have h0 := (Machine.load_orderly p).zero_le_emitted n e hemitted
  have hlimits : q.limits.IsNumeric := by
    intro b' hb'
    rw [hmax] at hb'
    cases hb'
    exact hb.1
  have hadmits := (Limits.timeReason?_eq_none hlimits (Binary64.le_iff.mp h0).2.1).mp
    (hended.early e hemitted)
  rw [Limits.admits, hmax, Bool.and_eq_true] at hadmits
  exact near_of_follows hb h0 hadmits.1

open Midi in
/-- **Deltas add up to ticks.** Events with valid fields and near times, in any order, and a time
signature that a file can hold always make a track, and its deltas add up to the tick of each event.
So does every rendering of a compiled program with a near limit on seconds, with the time signature
of the program. -/
theorem deltas_add_up :
    (∀ (events : List Event) (signature : Option (Int × Int)), (∀ e ∈ events, Datable e) →
      (∀ s ∈ signature, ∃ item, signatureItem s.1 s.2 = .ok item) →
      ∃ t, track events signature = .ok t ∧ t.Dates events) ∧
    ∀ (text : String) (name : Option String) (p : Program) (q : Render.Request) (rig rig' : Rig)
      (patience : Nat) (r : Rendering) (b : SecondsBound), compile text name = .ok p →
      q.limits.maxSeconds = some b → b.IsNear → render p q rig patience = (rig', .ok r) →
      ∃ t, r.track = .ok t ∧ t.Dates r.events := by
  refine ⟨fun events signature h hs => track_dates h hs, ?_⟩
  intro text name p q rig rig' patience r b hcompile hmax hb hrender
  have hdatable := Render.near_of_render hb hmax hrender
  have hsignature : r.timeSignature.IsSignature := by
    obtain ⟨tree, hparse, hlink⟩ := compile_ok hcompile
    obtain ⟨n, N, s, -, hfinish⟩ := Render.ended_of_render hrender
    cases hfinish
    exact Link.signature_ok (Source.parse_inRange hparse) hlink
  unfold Rendering.track
  rcases hsignature with hnone | ⟨n, d, hpair, hfits⟩
  · rw [hnone]
    exact track_dates hdatable (by simp)
  · rw [hpair]
    obtain ⟨item, hitem, -⟩ := signatureItem_ok hfits
    refine track_dates hdatable fun s hs => ?_
    obtain rfl := Option.some.inj hs
    exact ⟨item, hitem⟩

/-- An event half a second too early, recorded after a later one. -/
def outOfOrder : List Event :=
  [Midi.laterOn, ⟨.ofDecimal true 5 (-1), 0, true, 2, 64, 80, none, 0⟩, Midi.laterOff]

def waltzText : String := "SIGNATURE 3, 4\nPLAY c4:m FOR 2 beats"

def waltzProgram : Program where
  instructions := #[
    .send ⟨true, 0, 60, 90, none, ⟨2, 1⟩⟩, .send ⟨true, 0, 63, 90, none, ⟨2, 1⟩⟩,
    .send ⟨true, 0, 67, 90, none, ⟨2, 1⟩⟩, .wait ⟨2, .beats, ⟨2, 1⟩⟩,
    .send ⟨false, 0, 60, 0, none, ⟨2, 1⟩⟩, .send ⟨false, 0, 63, 0, none, ⟨2, 1⟩⟩,
    .send ⟨false, 0, 67, 0, none, ⟨2, 1⟩⟩]
  timeSignature := .pair 3 4

set_option maxRecDepth 4000 in
theorem compile_waltz : compile waltzText none = .ok waltzProgram := by
  cbv

open Midi in
theorem deltas_add_up_waltz :
    (∃ t, track outOfOrder (some (6, 8)) = .ok t ∧ t.Dates outOfOrder) ∧
      ∃ rig' r t, render waltzProgram { limits := { maxSeconds := some (.whole 2) } } {} 0 =
          (rig', .ok r) ∧ r.events.length = 6 ∧ r.timeSignature = .pair 3 4 ∧
        r.track = .ok t ∧ t.Dates r.events := by
  have hrange : ∀ e ∈ outOfOrder, e.InRange := by
    intro e he
    fin_cases he <;> exact ⟨by decide, by decide, by decide⟩
  have htime : ∀ e ∈ outOfOrder, e.time.IsNear := by decide +kernel
  have hbound : (SecondsBound.whole 2).IsNear := by
    refine ⟨trivial, WithBot.coe_le_coe.mpr (WithTop.coe_le_coe.mpr ?_)⟩
    decide +kernel
  refine ⟨deltas_add_up.1 outOfOrder (some (6, 8)) (fun e he => ⟨hrange e he, htime e he⟩) ?_, ?_⟩
  · intro s hs
    obtain rfl := Option.some.inj hs
    exact ⟨.timeSignature 6 3, by decide +kernel⟩
  · have hrender : (render waltzProgram { limits := { maxSeconds := some (.whole 2) } } {} 0).2.toOption.map
        (fun r => (r.events.length, r.timeSignature)) = some (6, .pair 3 4) := by decide +kernel
    rcases h : render waltzProgram { limits := { maxSeconds := some (.whole 2) } } {} 0 with
      ⟨rig', fault | r⟩
    · rw [h] at hrender
      cases hrender
    · rw [h] at hrender
      obtain ⟨hlength, hsignature⟩ := Prod.mk.inj (Option.some.inj hrender)
      obtain ⟨t, ht, hdates⟩ := deltas_add_up.2 waltzText none waltzProgram _ {} rig' 0 r
        (.whole 2) compile_waltz rfl hbound h
      exact ⟨rig', r, t, rfl, hlength, hsignature, ht, hdates⟩

end Ostinato
