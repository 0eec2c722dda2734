import Mathlib.Data.List.Basic
import Mathlib.Data.List.TakeWhile

/-!
# A queue in a ring of slots

A ring of `cap` slots holds a queue from slot `start` on, going around at most
once. The slots are written one after the other the first time round, so the
list behind the ring may still be shorter than `cap`; then the queue has not
wrapped yet. `Holds` is this representation invariant, and every queue
operation has one rule.

§1 slots · §2 the queue held · §3 the operations.
-/

namespace Ring

variable {α : Type} {buffer q : List α} {cap start i j k : ℕ} {x : α}

/-! ## §1  Slots -/

/-- The slot `k` places behind `start`. -/
def slot (cap start k : ℕ) : ℕ := if start + k ≥ cap then start + k - cap else start + k

theorem slot_of_lt (h : start + k < cap) : slot cap start k = start + k :=
  if_neg (Nat.not_le_of_lt h)

theorem slot_of_ge (h : cap ≤ start + k) : slot cap start k = start + k - cap := if_pos h

theorem slot_lt (hs : start < cap) (hk : k ≤ cap) : slot cap start k < cap := by
  rcases Nat.lt_or_ge (start + k) cap with h | h
  · rwa [slot_of_lt h]
  · rw [slot_of_ge h]
    omega

@[simp] theorem slot_zero (hs : start < cap) : slot cap start 0 = start := slot_of_lt hs

/-- Going on from a slot is going further from the first one. -/
theorem slot_slot (hs : start < cap) (hjk : j + k ≤ cap) :
    slot cap (slot cap start j) k = slot cap start (j + k) := by
  rcases Nat.lt_or_ge (start + j) cap with h | h
  · rw [slot_of_lt h, slot, slot, Nat.add_assoc]
  · -- the second step does not go around again
    have hlap : start + (j + k) < cap + cap := Nat.add_lt_add_of_lt_of_le hs hjk
    rw [slot_of_ge h, slot_of_lt (by omega), slot_of_ge (by omega)]
    omega

/-- Within one lap no slot is met twice. -/
theorem slot_ne (hjk : j < k) (hk : k < cap) :
    slot cap start j ≠ slot cap start k := by
  rcases Nat.lt_or_ge (start + j) cap with h | h
  · rw [slot_of_lt h, slot]
    split <;> omega
  · rw [slot_of_ge h, slot_of_ge (by omega)]
    omega

/-! ## §2  The queue held -/

/-- What the ring holds, first in first. -/
def contents (buffer : List α) (cap start count : ℕ) : List α :=
  (List.range count).filterMap fun k => buffer[slot cap start k]?

/-- The ring holds the queue `q` from `start` on. -/
structure Holds (buffer : List α) (cap start : ℕ) (q : List α) : Prop where
  buffer_le : buffer.length ≤ cap
  start_lt : start = 0 ∨ start < cap
  length_le : q.length ≤ cap
  /-- As long as a slot was never written, the queue lies in one piece. -/
  inside : buffer.length < cap → start + q.length ≤ buffer.length
  reads : ∀ k x, q[k]? = some x → buffer[slot cap start k]? = some x

namespace Holds

theorem lt_of_length (h : Holds buffer cap start q) (hq : 0 < cap) : start < cap := by
  rcases h.start_lt with rfl | hs
  · exact hq
  · exact hs

theorem filterMap_getElem? (q : List α) :
    (List.range q.length).filterMap (fun k => q[k]?) = q := by
  induction q with
  | nil => rfl
  | cons x q ih =>
      rw [List.length_cons, List.range_succ_eq_map, List.filterMap_cons, List.filterMap_map]
      simpa using ih

theorem contents_eq (h : Holds buffer cap start q) :
    contents buffer cap start q.length = q := by
  have hread : ∀ k ∈ List.range q.length, buffer[slot cap start k]? = q[k]? := by
    intro k hk
    have hlt := List.mem_range.mp hk
    rw [List.getElem?_eq_getElem hlt]
    exact h.reads k _ (List.getElem?_eq_getElem hlt)
  rw [contents, List.filterMap_congr hread]
  exact filterMap_getElem? q

/-- The head of the queue sits in the first slot. -/
theorem head (h : Holds buffer cap start (x :: q)) : buffer[start]? = some x := by
  have hcap : 0 < cap := Nat.lt_of_lt_of_le (Nat.succ_pos q.length) h.length_le
  have hread := h.reads 0 x rfl
  rwa [slot_zero (h.lt_of_length hcap)] at hread

/-! ## §3  The operations -/

theorem empty (hb : buffer.length ≤ cap) : Holds buffer cap 0 [] where
  buffer_le := hb
  start_lt := Or.inl rfl
  length_le := Nat.zero_le _
  inside := fun _ => Nat.zero_le _
  reads := fun k x hx => by cases hx

/-- The slot behind the queue is one that was written before, or the next one to be. -/
theorem next_le (h : Holds buffer cap start q) (hq : q.length < cap) :
    slot cap start q.length ≤ buffer.length := by
  have hs := h.lt_of_length (Nat.lt_of_le_of_lt (Nat.zero_le _) hq)
  rcases Nat.lt_or_ge buffer.length cap with hlt | hge
  · have hin := h.inside hlt
    rw [slot_of_lt (Nat.lt_of_le_of_lt hin hlt)]
    exact hin
  · exact Nat.le_trans (Nat.le_of_lt (slot_lt hs (Nat.le_of_lt hq))) hge

/-- Reading behind the queue the element written there, and before it the queue. -/
theorem reads_push {buffer' : List α} (h : Holds buffer cap start q) (hq : q.length < cap)
    (hnew : buffer'[slot cap start q.length]? = some x)
    (hold : ∀ i y, i ≠ slot cap start q.length → buffer[i]? = some y → buffer'[i]? = some y) :
    ∀ k y, (q ++ [x])[k]? = some y → buffer'[slot cap start k]? = some y := by
  intro k y hy
  rcases Nat.lt_or_ge k q.length with hk | hk
  · rw [List.getElem?_append_left hk] at hy
    exact hold _ _ (slot_ne hk hq) (h.reads k y hy)
  · obtain rfl : k = q.length := by
      have := (List.getElem?_eq_some_iff.mp hy).1
      rw [List.length_append, List.length_singleton] at this
      omega
    rw [List.getElem?_concat_length] at hy
    cases hy
    exact hnew

/-- The next element goes to a slot not written before. -/
theorem push_new (h : Holds buffer cap start q) (hq : q.length < cap)
    (hnext : slot cap start q.length = buffer.length) (x : α) :
    Holds (buffer ++ [x]) cap start (q ++ [x]) := by
  have hs := h.lt_of_length (Nat.lt_of_le_of_lt (Nat.zero_le _) hq)
  have hlt : buffer.length < cap := by
    rw [← hnext]
    exact slot_lt hs (Nat.le_of_lt hq)
  have hin := h.inside hlt
  refine ⟨?_, h.start_lt, ?_, ?_, ?_⟩
  · rw [List.length_append, List.length_singleton]
    exact hlt
  · rw [List.length_append, List.length_singleton]
    exact hq
  · intro _
    rw [List.length_append, List.length_append, List.length_singleton, ← Nat.add_assoc]
    exact Nat.succ_le_succ hin
  · apply h.reads_push hq
    · rw [hnext, List.getElem?_concat_length]
    · intro i y _ hy
      rw [List.getElem?_append_left (List.getElem?_eq_some_iff.mp hy).1]
      exact hy

/-- The next element goes to a slot used before. -/
theorem push_old (h : Holds buffer cap start q) (hq : q.length < cap)
    (hnext : slot cap start q.length < buffer.length) (x : α) :
    Holds (buffer.set (slot cap start q.length) x) cap start (q ++ [x]) := by
  refine ⟨?_, h.start_lt, ?_, ?_, ?_⟩
  · rw [List.length_set]
    exact h.buffer_le
  · rw [List.length_append, List.length_singleton]
    exact hq
  · intro hlt
    rw [List.length_set] at hlt ⊢
    have hin := h.inside hlt
    rw [slot_of_lt (Nat.lt_of_le_of_lt hin hlt)] at hnext
    rw [List.length_append, List.length_singleton, ← Nat.add_assoc]
    exact hnext
  · apply h.reads_push hq
    · exact List.getElem?_set_self hnext
    · intro i y hi hy
      rw [List.getElem?_set_ne (Ne.symm hi)]
      exact hy

/-- Going on by `n` slots gives up the first `n` elements. -/
theorem drop (h : Holds buffer cap start q) {n : ℕ} (hn : n ≤ q.length) :
    Holds buffer cap (slot cap start n) (q.drop n) := by
  have hlen := h.length_le
  rcases Nat.eq_zero_or_pos cap with rfl | hcap
  · obtain rfl : q = [] := List.length_eq_zero_iff.mp (Nat.le_zero.mp hlen)
    obtain rfl : n = 0 := Nat.le_zero.mp hn
    rcases h.start_lt with rfl | hs
    · exact h
    · cases hs
  · have hs := h.lt_of_length hcap
    refine ⟨h.buffer_le, Or.inr (slot_lt hs (Nat.le_trans hn hlen)), ?_, ?_, ?_⟩
    · rw [List.length_drop]
      exact Nat.le_trans (Nat.sub_le _ _) hlen
    · intro hlt
      have hin := h.inside hlt
      rw [slot_of_lt (by omega), List.length_drop]
      omega
    · intro k y hy
      rw [List.getElem?_drop] at hy
      have hk := (List.getElem?_eq_some_iff.mp hy).1
      rw [slot_slot hs (by omega)]
      exact h.reads _ y hy

/-- What a `dropWhile` gives up is counted by the `takeWhile`. -/
theorem dropWhile_eq_drop (p : α → Bool) (q : List α) :
    q.dropWhile p = q.drop (q.takeWhile p).length := by
  induction q with
  | nil => rfl
  | cons x q ih =>
      cases hx : p x with
      | true => rw [List.dropWhile_cons_of_pos hx, List.takeWhile_cons_of_pos hx, ih]; rfl
      | false =>
          have hx' : ¬ p x = true := by simp [hx]
          rw [List.dropWhile_cons_of_neg hx', List.takeWhile_cons_of_neg hx']
          rfl

/-- Giving up a beginning of the queue. -/
theorem dropWhile (h : Holds buffer cap start q) (p : α → Bool) :
    Holds buffer cap (slot cap start (q.takeWhile p).length) (q.dropWhile p) := by
  rw [dropWhile_eq_drop]
  exact h.drop (List.takeWhile_prefix p).length_le

end Holds

end Ring
