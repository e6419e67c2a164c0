import Ostinato.Machine

/-!
# The table of jump counters

`put` changes one entry and keeps the order of the others, so a table is described by its keys and
by what `get?` finds at each. `take_open` and `take_closed` say what
taking a jump does to it.
-/

namespace Ostinato.Counters

/-- The indices that have an entry. -/
def keys (cs : Counters) : List Int := cs.map Prod.fst

@[simp] theorem get?_nil (i : Int) : get? [] i = none := rfl

@[simp] theorem get?_cons (k n i : Int) (rest : Counters) :
    get? ((k, n) :: rest) i = if i = k then some n else get? rest i := by
  unfold get?
  rw [List.lookup_cons]
  by_cases hi : i = k
  · simp [hi]
  · have hb : (i == k) = false := by simpa using hi
    simp only [hb, if_neg hi]

theorem get?_put (cs : Counters) (index count i : Int) :
    (cs.put index count).get? i = if i = index then some count else cs.get? i := by
  induction cs with
  | nil => rw [put, get?_cons]
  | cons e rest ih =>
    obtain ⟨k, n⟩ := e
    unfold put
    by_cases hk : k = index
    · subst hk
      by_cases hi : i = k <;> simp [hi]
    · rw [if_neg hk, get?_cons, get?_cons, ih]
      by_cases hi : i = k
      · rw [if_pos hi, if_pos hi, if_neg (by omega)]
      · rw [if_neg hi, if_neg hi]

theorem mem_keys_iff {cs : Counters} {i : Int} : i ∈ cs.keys ↔ ∃ n, cs.get? i = some n := by
  induction cs with
  | nil => simp [keys]
  | cons e rest ih =>
    obtain ⟨k, n⟩ := e
    simp only [keys, List.map_cons, List.mem_cons, get?_cons] at ih ⊢
    by_cases hi : i = k
    · simp [hi]
    · simp [hi, ih]

section
variable {cs : Counters} {index : Int} (count : Int)

theorem keys_put_of_mem (h : index ∈ cs.keys) : (cs.put index count).keys = cs.keys := by
  unfold keys at *
  induction cs with
  | nil => cases h
  | cons e rest ih =>
    obtain ⟨k, n⟩ := e
    unfold put
    by_cases hk : k = index
    · rw [if_pos hk]
      rfl
    · have hrest : index ∈ rest.map Prod.fst := by
        rcases List.mem_cons.mp h with h | h
        · exact absurd h.symm hk
        · exact h
      rw [if_neg hk, List.map_cons, List.map_cons, ih hrest]

theorem keys_put_of_not_mem (h : index ∉ cs.keys) :
    (cs.put index count).keys = cs.keys ++ [index] := by
  unfold keys at *
  induction cs with
  | nil => rfl
  | cons e rest ih =>
    obtain ⟨k, n⟩ := e
    simp only [List.map_cons, List.mem_cons, not_or] at h
    unfold put
    rw [if_neg (Ne.symm h.1), List.map_cons, List.map_cons, ih h.2, List.cons_append]

end

/-! ## The first table -/

theorem get?_foldl_put (sites : List JumpSite) (cs : Counters) (i : Int) :
    (sites.foldl (fun cs s => cs.put s.index 0) cs).get? i =
      if i ∈ sites.map (·.index) then some 0 else cs.get? i := by
  induction sites generalizing cs with
  | nil => simp
  | cons s rest ih =>
    rw [List.foldl_cons, ih, get?_put]
    by_cases hr : i ∈ rest.map (·.index)
    · simp [hr]
    · by_cases hi : i = s.index <;> simp [hr, hi]

theorem keys_foldl_put (sites : List JumpSite) (cs : Counters)
    (h : (cs.keys ++ sites.map (·.index)).Nodup) :
    (sites.foldl (fun cs s => cs.put s.index 0) cs).keys = cs.keys ++ sites.map (·.index) := by
  induction sites generalizing cs with
  | nil => simp
  | cons s rest ih =>
    have hs : s.index ∉ cs.keys := by
      intro hmem
      rw [List.map_cons] at h
      exact (List.nodup_append.mp h).2.2 _ hmem _ (by simp) rfl
    have hkeys := keys_put_of_not_mem 0 hs
    rw [List.foldl_cons, ih, hkeys, List.map_cons, List.append_assoc, List.singleton_append]
    rw [hkeys, List.append_assoc, List.singleton_append]
    exact h

theorem get?_start {sites : List JumpSite} {i : Int} (h : i ∈ sites.map (·.index)) :
    (start sites).get? i = some 0 := by
  rw [start, get?_foldl_put, if_pos h]

theorem keys_start {sites : List JumpSite} (h : (sites.map (·.index)).Nodup) :
    (start sites).keys = sites.map (·.index) := by
  rw [start, keys_foldl_put _ _ (by simpa [keys] using h)]
  rfl

/-! ## Taking a jump -/

/-- Whether a jump that has been taken `n` times can be taken once more. -/
def Open (bound : Option Int) (n : Int) : Prop := ∀ b, bound = some b → n < b

instance (bound : Option Int) (n : Int) : Decidable (Open bound n) :=
  match bound with
  | none => .isTrue fun _ h => by cases h
  | some b => decidable_of_iff (n < b) ⟨fun h _ e => by cases e; exact h, fun h => h b rfl⟩

theorem open_none (n : Int) : Open none n := fun _ h => by cases h

theorem open_some {b n : Int} : Open (some b) n ↔ n < b := by
  simp [Open]

section
variable {cs : Counters} {index n : Int} {bound : Option Int}

theorem take_open (h : cs.get? index = some n) (hn : 0 ≤ n) (ho : Open bound n) :
    cs.take index bound = .ok (cs.put index (n + 1), true) := by
  unfold take
  rw [h]
  dsimp only
  rw [if_neg (by omega)]
  cases bound with
  | none => rfl
  | some b =>
    rw [open_some] at ho
    rw [if_neg (by simpa using ho)]

theorem take_closed (h : cs.get? index = some n) (hn : 0 ≤ n) (ho : ¬Open bound n) :
    cs.take index bound = .ok (cs, false) := by
  unfold take
  rw [h]
  dsimp only
  rw [if_neg (by omega)]
  cases bound with
  | none => exact absurd (open_none n) ho
  | some b =>
    rw [open_some] at ho
    rw [if_pos (by simpa using ho)]

theorem get?_take {cs' : Counters} {taken : Bool} (h : cs.take index bound = .ok (cs', taken))
    {i : Int} (hi : i ≠ index) : cs'.get? i = cs.get? i := by
  cases hn : cs.get? index with
  | none =>
    rw [take, hn] at h
    cases h
  | some n =>
    by_cases hneg : n < 0
    · simp only [take, hn, if_pos hneg, reduceCtorEq] at h
    · by_cases ho : Open bound n
      · rw [take_open hn (by omega) ho] at h
        cases h
        rw [get?_put, if_neg hi]
      · rw [take_closed hn (by omega) ho] at h
        cases h
        rfl

end

/-- What the counter of a jump with the given bound shows after `k` executions of it. -/
def taken (bound : Option Int) (k : Nat) : Int :=
  match bound with
  | none => k
  | some b => min b k

section
variable {bound : Option Int} {k : Nat}

theorem open_taken : Open bound (taken bound k) ↔ Open bound k := by
  cases bound with
  | none => exact iff_of_true (open_none _) (open_none _)
  | some b =>
    rw [open_some, open_some, taken]
    omega

theorem taken_succ : taken bound (k + 1) =
    if Open bound k then taken bound k + 1 else taken bound k := by
  cases bound with
  | none =>
    rw [if_pos (open_none _)]
    rfl
  | some b =>
    simp only [open_some, taken]
    split <;> omega

theorem taken_mono {k' : Nat} (h : k ≤ k') : taken bound k ≤ taken bound k' := by
  cases bound with
  | none =>
    simp only [taken]
    omega
  | some b =>
    simp only [taken]
    omega

theorem not_open_mono {k' : Nat} (h : k ≤ k') (ho : ¬Open bound k) :
    ¬Open bound k' ∧ taken bound k' = taken bound k := by
  cases bound with
  | none => exact absurd (open_none _) ho
  | some b =>
    rw [open_some] at ho ⊢
    simp only [taken]
    omega

end

end Ostinato.Counters
