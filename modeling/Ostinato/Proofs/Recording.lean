import Ostinato.Binary64.Decimal
import Ostinato.Proofs.Comparing
import Ostinato.Proofs.MidiReader
import Ostinato.Proofs.Rounding

/-!
# Recordings

The file of a recording is read back as what was recorded. Events that a file can hold always make a
track (`track_ok`): their times have a tick and their numbers fit into bytes. The track has them in
order of time, those of one time as they were recorded (`byTime_stable`), and `readSong_file` does the
rest.
-/

namespace Ostinato

open Binary64

-- The value of these two is too large to be computed with.
attribute [local irreducible] one limit

/-! ## Ticks -/

namespace Binary64

def units : Binary64 → Nat
  | fin _ mag => mag
  | _ => 0

theorem eq_fin_of_le {x : Binary64} {b : Nat} (h0 : zero.le x = true)
    (hb : x.le (fin false b) = true) : ∃ s a, x = fin s a ∧ a ≤ b := by
  match x with
  | nan s => simp [le, lt, eq, zero] at h0
  | inf true => simp [le, lt, eq, zero] at h0
  | inf false => simp [le, lt, eq] at hb
  | fin false a => exact ⟨false, a, rfl, le_fin.mp hb⟩
  | fin true a =>
    -- The only one that is not below zero is the negative zero.
    have ha : 0 = a := by simpa [le, lt, eq, zero] using h0
    exact ⟨true, a, rfl, ha ▸ Nat.zero_le b⟩

end Binary64

namespace Midi

/-- The latest time that is recorded here, in seconds. -/
def latest : Binary64 := ofDecimal false 1 300

theorem latest_fits : ∃ perTick mag, secondsPerTick = fin false perTick ∧ 0 < perTick ∧
    latest = fin false mag ∧ nearestMag (one * mag) perTick < limit :=
  ⟨secondsPerTick.units, latest.units, by decide +kernel, by decide +kernel, by decide +kernel,
    by decide +kernel⟩

theorem tickAt_ok {time : Binary64} (h0 : zero.le time = true) (hl : time.le latest = true) :
    ∃ tick, tickAt time = .ok tick := by
  obtain ⟨perTick, mag, hper, hpos, hlatest, hfits⟩ := latest_fits
  rw [hlatest] at hl
  obtain ⟨s, a, rfl, ha⟩ := eq_fin_of_le h0 hl
  have hmag : nearestMag (one * a) perTick < limit :=
    Nat.lt_of_le_of_lt (nearestMag_mono (Nat.mul_le_mul_left one ha) _) hfits
  have hquotient : fin s a / fin false perTick =
      fin (s != false) (nearestMag (one * a) perTick) := by
    show (if perTick = 0 then _ else roundQuotient (s != false) (one * a) perTick) = _
    rw [if_neg (by omega), roundQuotient_of_lt hmag]
  unfold tickAt
  rw [hper, hquotient]
  exact ⟨_, rfl⟩

/-! ## The order of events -/

/-- Whether an event may stand before another. -/
noncomputable def inOrder (a b : Event) : Bool := decide (a.time.place ≤ b.time.place)

section
variable {events : List Event} (h : ∀ e ∈ events, e.time.IsNumber)
include h

theorem byTime_eq : byTime events = events.mergeSort inOrder := by
  have hsame : ∀ a ∈ events, ∀ b ∈ events, (!b.time.lt a.time) = inOrder a b := by
    intro a ha b hb
    rw [inOrder, Bool.eq_iff_iff, Bool.not_eq_true', decide_eq_true_iff,
      ← le_iff_not_lt (h a ha) (h b hb), le_iff]
    exact ⟨fun hle => hle.2.2, fun hle => ⟨h a ha, h b hb, hle⟩⟩
  have hmap := List.map_mergeSort (f := id) hsame
  rwa [List.map_id, List.map_id] at hmap

/-- Recorded events are sorted by time, and events of one time keep their order. -/
theorem byTime_stable : (byTime events).Perm events ∧
    (byTime events).Pairwise (fun a b => a.time.le b.time = true) ∧
    ∀ x, (byTime events).filter (·.time.eq x) = events.filter (·.time.eq x) := by
  have htrans : ∀ a b c, inOrder a b = true → inOrder b c = true → inOrder a c = true := by
    intro a b c hab hbc
    exact decide_eq_true ((of_decide_eq_true hab).trans (of_decide_eq_true hbc))
  have htotal : ∀ a b, (inOrder a b || inOrder b a) = true := by
    intro a b
    rw [Bool.or_eq_true]
    exact (le_total a.time.place b.time.place).imp decide_eq_true decide_eq_true
  have hperm : (byTime events).Perm events := List.mergeSort_perm _ _
  refine ⟨hperm, ?_, fun x => ?_⟩
  · have hsorted := List.pairwise_mergeSort htrans htotal events
    rw [← byTime_eq h] at hsorted
    refine hsorted.imp_of_mem fun {a b} ha hb hle => ?_
    exact le_iff.mpr ⟨h a (hperm.subset ha), h b (hperm.subset hb), of_decide_eq_true hle⟩
  · have hequal : (events.filter (·.time.eq x)).Pairwise (fun a b => inOrder a b = true) := by
      refine List.pairwise_of_forall_mem_list fun a ha b hb => ?_
      have hax := (List.mem_filter.mp ha).2
      have hbx := (List.mem_filter.mp hb).2
      obtain ⟨hna, hnx⟩ := isNumber_of_eq hax
      obtain ⟨hnb, -⟩ := isNumber_of_eq hbx
      have hplace : a.time.place = b.time.place :=
        ((eq_iff_place hna hnx).mp hax).trans ((eq_iff_place hnb hnx).mp hbx).symm
      exact decide_eq_true (le_of_eq hplace)
    have hsub := (List.sublist_mergeSort htrans htotal hequal List.filter_sublist).filter
      (·.time.eq x)
    rw [← byTime_eq h, List.filter_filter] at hsub
    simp only [Bool.and_self] at hsub
    exact (hsub.eq_of_length (hperm.filter _).length_eq.symm).symm

end

/-! ## Tracks -/

/-- An event that a file can hold. -/
structure Recordable (e : Event) : Prop where
  channel : 0 ≤ e.channel ∧ e.channel ≤ 15
  pitch : 0 ≤ e.pitch ∧ e.pitch ≤ 127
  velocity : 0 ≤ e.velocity ∧ e.velocity ≤ 127
  time : zero.le e.time = true ∧ e.time.le latest = true

theorem Recordable.isNumber {e : Event} (h : Recordable e) : e.time.IsNumber :=
  (le_iff.mp h.time.1).2.1

def noteOf (e : Event) : Content :=
  .note e.on e.channel.toNat e.pitch.toNat e.velocity.toNat

theorem ofEvent_ok {e : Event} (h : Recordable e) :
    ∃ m, Message.ofEvent e = .ok m ∧ m.Fits ∧ m.content = noteOf e := by
  obtain ⟨hc, hc'⟩ := h.channel
  obtain ⟨hp, hp'⟩ := h.pitch
  obtain ⟨hv, hv'⟩ := h.velocity
  unfold Message.ofEvent channelCount maxNote maxVelocity noteOf
  rw [if_neg (by omega), if_neg (by omega), if_neg (by omega)]
  refine ⟨_, rfl, ?_⟩
  cases e.on
  · exact ⟨⟨by omega, by omega, by omega⟩, rfl⟩
  · exact ⟨⟨by omega, by omega, by omega⟩, rfl⟩

theorem itemsFrom_ok {es : List Event} (h : ∀ e ∈ es, Recordable e) (last : Int) :
    ∃ items, itemsFrom last es = .ok items ∧ (∀ i ∈ items, i.2.Fits) ∧
      items.map (·.2.content) = es.map noteOf := by
  induction es generalizing last with
  | nil => exact ⟨[], rfl, by simp, rfl⟩
  | cons e rest ih =>
    have he := h e List.mem_cons_self
    obtain ⟨tick, htick⟩ := tickAt_ok he.time.1 he.time.2
    obtain ⟨m, hm, hfits, hcontent⟩ := ofEvent_ok he
    obtain ⟨items, hitems, hall, hcontents⟩ :=
      ih (fun e' he' => h e' (List.mem_cons_of_mem e he')) (max last tick)
    refine ⟨((tick - last).toNat, .message m) :: items, ?_, ?_, ?_⟩
    · rw [itemsFrom, htick]
      dsimp only
      rw [hm]
      dsimp only
      rw [hitems]
    · exact List.forall_mem_cons.mpr ⟨hfits, hall⟩
    · rw [List.map_cons, List.map_cons, hcontents]
      exact congrArg (· :: rest.map noteOf) hcontent

/-- A time signature that a file can hold: some beats of a whole note, a half and so on down to a
sixty-fourth. -/
def SignatureFits (s : Int × Int) : Prop :=
  (1 ≤ s.1 ∧ s.1 ≤ 255) ∧ ∃ k ≤ 6, s.2 = 2 ^ k

def signatureOf : Option (Int × Int) → List Content
  | none => []
  | some (n, d) => [.timeSignature n.toNat d.toNat 24 8]

theorem unit_ok : ∀ k ≤ 6, (1 ≤ (2 : Int) ^ k ∧ (2 : Int) ^ k ≤ Int.pow 2 255) ∧
    (Binary64.log2 ((2 : Int) ^ k).toNat).natural? = some k ∧ ((2 : Int) ^ k).toNat = 2 ^ k := by
  decide +kernel

theorem signatureItem_ok {n d : Int} (h : SignatureFits (n, d)) :
    ∃ item, signatureItem n d = .ok item ∧ item.Fits ∧
      [item.content] = signatureOf (some (n, d)) := by
  obtain ⟨⟨hn, hn'⟩, k, hk, hd⟩ := h
  obtain ⟨hrange, hlog, hunit⟩ := unit_ok k hk
  dsimp only at hn hn' hd
  subst hd
  refine ⟨.timeSignature n.toNat k, ?_, ⟨by omega, by omega⟩, ?_⟩
  · rw [signatureItem, if_neg (by omega), if_neg (not_not_intro hrange), hlog]
  · rw [signatureOf, hunit]
    rfl

theorem track_ok {events : List Event} (h : ∀ e ∈ events, Recordable e)
    {signature : Option (Int × Int)} (hs : ∀ s ∈ signature, SignatureFits s) :
    ∃ t, track events signature = .ok t ∧ (∀ i ∈ t.items, i.2.Fits) ∧
      t.items.map (·.2.content) =
        .tempo microsecondsPerBeat :: signatureOf signature ++ (byTime events).map noteOf := by
  have hperm : (byTime events).Perm events := List.mergeSort_perm _ _
  obtain ⟨items, hitems, hfits, hcontents⟩ :=
    itemsFrom_ok (fun e he => h e (hperm.subset he)) 0
  have htempo : microsecondsPerBeat < 256 ^ 3 := by decide
  cases signature with
  | none =>
    refine ⟨⟨(0, .tempo microsecondsPerBeat) :: items⟩, ?_,
      List.forall_mem_cons.mpr ⟨htempo, hfits⟩, ?_⟩
    · unfold track
      rw [hitems]
      rfl
    · rw [List.map_cons, hcontents]
      rfl
  | some s =>
    obtain ⟨n, d⟩ := s
    obtain ⟨item, hitem, hitemfits, hcontent⟩ := signatureItem_ok (hs (n, d) rfl)
    refine ⟨⟨(0, .tempo microsecondsPerBeat) :: (0, item) :: items⟩, ?_,
      List.forall_mem_cons.mpr ⟨htempo, List.forall_mem_cons.mpr ⟨hitemfits, hfits⟩⟩, ?_⟩
    · unfold track
      dsimp only
      rw [hitem, hitems]
      rfl
    · rw [List.map_cons, List.map_cons, hcontents, ← hcontent]
      rfl

/-- **A recording is read back from its file.** Events that a file can hold make a track; the file of
a track that is not too long consists of bytes, and a reader of standard MIDI files uses up all of
them: there is one track, with the tempo, the time signature if there is one, the events in order of
time, those of one time as they were recorded, each so many ticks after the one before as the track
says, and the end. -/
theorem recording_read {events : List Event} (h : ∀ e ∈ events, Recordable e)
    {signature : Option (Int × Int)} (hs : ∀ s ∈ signature, SignatureFits s) :
    ∃ (t : Track) (sorted : List Event), track events signature = .ok t ∧
      sorted.Perm events ∧
      sorted.Pairwise (fun a b => a.time.le b.time = true) ∧
      (∀ x, sorted.filter (·.time.eq x) = events.filter (·.time.eq x)) ∧
      (t.bytes.length < 2 ^ 32 → AreBytes (file t) ∧ ∃ read,
        readSong (file t) = some (⟨0, 480, [read]⟩, []) ∧
          read.map Prod.fst = t.items.map Prod.fst ++ [0] ∧
          read.map Prod.snd =
            .tempo 500000 :: signatureOf signature ++ sorted.map noteOf ++ [.endOfTrack]) := by
  obtain ⟨t, ht, hfits, hcontents⟩ := track_ok h hs
  obtain ⟨hperm, hsorted, hequal⟩ := byTime_stable fun e he => (h e he).isNumber
  refine ⟨t, byTime events, ht, hperm, hsorted, hequal, fun hsize => ⟨file_bytes hfits, _,
    readSong_file hfits hsize, ?_, ?_⟩⟩
  · rw [List.map_append, List.map_map]
    rfl
  · rw [List.map_append, List.map_map]
    show t.items.map (·.2.content) ++ _ = _
    rw [hcontents]
    rfl

/-- A note, its end so late that the ticks up to it take three bytes, and an earlier note that ends
when the other begins. -/
def laterOn : Event := ⟨.ofDecimal false 5 (-1), 480, true, 2, 60, 90, none, 1⟩

def laterOff : Event := ⟨.ofDecimal false 200 0, 192000, false, 2, 60, 0, none, 3⟩

def earlierOn : Event := ⟨.zero, 0, true, 2, 64, 80, none, 0⟩

def earlierOff : Event := ⟨.ofDecimal false 5 (-1), 480, false, 2, 64, 0, none, 2⟩

def scattered : List Event := [laterOn, laterOff, earlierOn, earlierOff]

theorem scattered_byTime : byTime scattered = [earlierOn, laterOn, earlierOff, laterOff] := by
  have hlater : laterOff.time.lt laterOn.time = false := by decide +kernel
  have hearlier : earlierOff.time.lt earlierOn.time = false := by decide +kernel
  have hfirst : earlierOn.time.lt laterOn.time = true := by decide +kernel
  have htie : earlierOff.time.lt laterOn.time = false := by decide +kernel
  have hlast : earlierOff.time.lt laterOff.time = true := by decide +kernel
  simp [byTime, scattered, List.mergeSort, List.MergeSort.Internal.splitInTwo, hlater, hearlier,
    hfirst, htie, hlast]

theorem recording_read_scattered : ∃ (t : Track) (sorted : List Event) (read : List (Nat × Content)),
    track scattered (some (3, 8)) = .ok t ∧ t.bytes.length = 36 ∧
      sorted.Perm scattered ∧ sorted.Pairwise (fun a b => a.time.le b.time = true) ∧
      readSong (file t) = some (⟨0, 480, [read]⟩, []) ∧
      read.map Prod.fst = [0, 0, 0, 480, 0, 191520, 0] ∧
      read.map Prod.snd =
        .tempo 500000 :: [.timeSignature 3 8 24 8] ++ sorted.map noteOf ++ [.endOfTrack] := by
  have hrecordable : ∀ e ∈ scattered, Recordable e := by
    have hranges : ∀ e ∈ scattered, (0 ≤ e.channel ∧ e.channel ≤ 15) ∧
        (0 ≤ e.pitch ∧ e.pitch ≤ 127) ∧ (0 ≤ e.velocity ∧ e.velocity ≤ 127) ∧
        zero.le e.time = true ∧ e.time.le latest = true := by decide +kernel
    intro e he
    obtain ⟨hchannel, hpitch, hvelocity, htime⟩ := hranges e he
    exact ⟨hchannel, hpitch, hvelocity, htime⟩
  have hsignature : ∀ s ∈ some ((3 : Int), (8 : Int)), SignatureFits s := by
    intro s hs
    cases hs
    exact ⟨by decide, 3, by decide, by decide⟩
  have hwritten : (track scattered (some (3, 8))).toOption.map
      (fun t => (t.bytes.length, t.items.map Prod.fst)) =
        some (36, [0, 0, 0, 480, 0, 191520]) := by
    unfold track
    rw [scattered_byTime]
    decide +kernel
  obtain ⟨t, sorted, ht, hperm, hsorted, -, hread⟩ := recording_read hrecordable hsignature
  rw [ht] at hwritten
  obtain ⟨hlength, hdeltas⟩ := Prod.mk.inj (Option.some.inj hwritten)
  obtain ⟨-, read, hsong, hfst, hsnd⟩ := hread (by rw [hlength]; decide)
  rw [hdeltas] at hfst
  exact ⟨t, sorted, read, ht, hlength, hperm, hsorted, hsong, hfst, hsnd⟩

end Midi

end Ostinato
