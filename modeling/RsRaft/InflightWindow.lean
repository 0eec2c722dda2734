import RsRaft.Lib.EveryCall
import RsRaft.Lib.Ring
import RsRaft.Progress

/-!
# The window of messages in flight

`Inflights` is a ring of slots, filled lazily and never shrunk by `reset`. What
it stands for is a bounded queue: `add` appends, `free_to` gives up the longest
beginning of values that are covered.

§1 the calls and the queue · §2 one call · §3 the run.
-/

namespace RsRaft

/-! ## §1  The calls and the queue -/

inductive InflightCall where
  | add (inflight : ℕ)
  | freeTo (to_ : ℕ)
  | freeFirstOne
  | reset
deriving DecidableEq, Repr

namespace InflightCall

def run (ins : Inflights) : InflightCall → Except Panic Inflights
  | add inflight => ins.add inflight
  | freeTo to_ => ins.freeTo to_
  | freeFirstOne => ins.freeFirstOne
  | reset => pure ins.reset

/-- A caller adds only if there is room, and frees the first one only if there is one. -/
def Allowed (ins : Inflights) : InflightCall → Prop
  | add _ => ins.full = false
  | freeFirstOne => ins.count ≠ 0
  | _ => True

/-- What the call does to the queue of values in flight. -/
def apply (q : List ℕ) : InflightCall → List ℕ
  | add inflight => q ++ [inflight]
  | freeTo to_ => q.dropWhile (· ≤ to_)
  | freeFirstOne =>
      match q with
      | [] => []
      | x :: _ => q.dropWhile (· ≤ x)
  | reset => []

end InflightCall

/-- Every call of the sequence meets `P` in the window before it. -/
def EveryInflightCall (P : Inflights → InflightCall → Prop) :
    List InflightCall → Inflights → Prop :=
  EveryCall (fun ins c ins' => c.run ins = .ok ins') P

namespace Inflights

variable {ins : Inflights} {q : List ℕ} {x : ℕ}

/-- The values in flight, in the order they were added. -/
def contents (ins : Inflights) : List ℕ :=
  Ring.contents ins.buffer ins.capacity ins.start ins.count

/-- The window holds the queue `q`. -/
structure Queues (ins : Inflights) (q : List ℕ) : Prop where
  count : ins.count = q.length
  holds : Ring.Holds ins.buffer ins.capacity ins.start q

theorem queues_new (cap : ℕ) : Queues (new cap) [] := ⟨rfl, Ring.Holds.empty (Nat.zero_le _)⟩

namespace Queues

theorem contents_eq (h : Queues ins q) : ins.contents = q := by
  rw [contents, h.count]
  exact h.holds.contents_eq

theorem length_le (h : Queues ins q) : q.length ≤ ins.capacity := h.holds.length_le

theorem full_iff (h : Queues ins q) : ins.full = true ↔ q.length = ins.capacity := by
  rw [full, beq_iff_eq, h.count]
  rfl

/-! ## §2  One call -/

/-- Where there is room, `add` appends. -/
theorem add (h : Queues ins q) (hfull : ins.full = false) (x : ℕ) :
    ∃ ins', ins.add x = .ok ins' ∧ ins'.capacity = ins.capacity ∧ Queues ins' (q ++ [x]) := by
  have hroom : q.length < ins.capacity := by
    refine Nat.lt_of_le_of_ne h.length_le ?_
    intro heq
    rw [h.full_iff.mpr heq] at hfull
    cases hfull
  have hlen : ins.count + 1 = (q ++ [x]).length := by
    rw [List.length_append, List.length_singleton, h.count]
  have hnext := h.holds.next_le hroom
  have hslot : (if ins.start + ins.count ≥ ins.cap then ins.start + ins.count - ins.cap
      else ins.start + ins.count) = Ring.slot ins.capacity ins.start q.length := by
    rw [h.count]
    rfl
  simp only [Inflights.add, hfull, hslot]
  rw [if_neg (by decide), if_neg (not_not_intro hnext)]
  by_cases hend : Ring.slot ins.capacity ins.start q.length = ins.buffer.length
  · rw [if_pos hend]
    exact ⟨_, rfl, rfl, hlen, h.holds.push_new hroom hend x⟩
  · rw [if_neg hend]
    exact ⟨_, rfl, rfl, hlen, h.holds.push_old hroom (Nat.lt_of_le_of_ne hnext hend) x⟩

/-- The scan stops at the first value behind `to_`. -/
theorem freeScan (h : Queues ins q) (to_ : ℕ) (left : ℕ) : ∀ i, i + left = q.length →
    ins.freeScan to_ left i (Ring.slot ins.capacity ins.start i) =
      .ok (i + ((q.drop i).takeWhile (· ≤ to_)).length,
        Ring.slot ins.capacity ins.start
          (i + ((q.drop i).takeWhile (· ≤ to_)).length)) := by
  induction left with
  | zero =>
      intro i hi
      rw [List.drop_eq_nil_of_le (Nat.le_of_eq (show q.length = i from hi.symm))]
      rfl
  | succ left ih =>
      intro i hi
      have hlt : i < q.length := by omega
      have hs := h.holds.lt_of_length (Nat.lt_of_lt_of_le (Nat.zero_lt_of_lt hlt) h.length_le)
      have hread := h.holds.reads i _ (List.getElem?_eq_getElem hlt)
      rw [List.drop_eq_getElem_cons hlt, List.takeWhile_cons]
      simp only [Inflights.freeScan, hread]
      by_cases hle : q[i] ≤ to_
      · rw [if_neg (Nat.not_lt_of_le hle), if_pos (decide_eq_true hle), List.length_cons]
        have hstep : (if Ring.slot ins.capacity ins.start i + 1 ≥ ins.cap
            then Ring.slot ins.capacity ins.start i + 1 - ins.cap
            else Ring.slot ins.capacity ins.start i + 1) =
              Ring.slot ins.capacity ins.start (i + 1) :=
          Ring.slot_slot hs (Nat.le_trans hlt h.length_le)
        rw [hstep, ih (i + 1) (by omega), Nat.add_assoc, Nat.add_comm 1]
      · rw [if_pos (Nat.lt_of_not_le hle), if_neg (by simpa using hle)]
        rfl

/-- `free_to` gives up the longest beginning of values up to `to_`. -/
theorem freeTo (h : Queues ins q) (to_ : ℕ) :
    ∃ ins', ins.freeTo to_ = .ok ins' ∧ ins'.capacity = ins.capacity ∧
      Queues ins' (q.dropWhile (· ≤ to_)) := by
  cases q with
  | nil => exact ⟨ins, if_pos h.count, rfl, h⟩
  | cons x q =>
      have hcount : ins.count ≠ 0 := by
        rw [h.count]
        exact Nat.succ_ne_zero _
      have hs := h.holds.lt_of_length (Nat.lt_of_lt_of_le (Nat.succ_pos _) h.length_le)
      simp only [Inflights.freeTo, if_neg hcount, h.holds.head]
      by_cases hlt : to_ < x
      · rw [if_pos hlt]
        refine ⟨ins, rfl, rfl, ?_⟩
        rw [List.dropWhile_cons_of_neg (by simpa using hlt)]
        exact h
      · have hscan := h.freeScan to_ ins.count 0 (by rw [Nat.zero_add, h.count])
        rw [Ring.slot_zero hs, List.drop_zero, Nat.zero_add] at hscan
        rw [if_neg hlt, hscan]
        refine ⟨_, rfl, rfl, ?_, h.holds.dropWhile _⟩
        show ins.count - _ = _
        rw [h.count, ← List.length_drop, Ring.Holds.dropWhile_eq_drop]

theorem freeFirstOne (h : Queues ins (x :: q)) : ins.freeFirstOne = ins.freeTo x := by
  rw [Inflights.freeFirstOne, h.holds.head]

/-- Whatever it frees, the first one or nothing, a window stays a window. -/
theorem freeFirstOne_ok (h : Queues ins q) {ins' : Inflights}
    (hrun : ins.freeFirstOne = .ok ins') :
    ins'.capacity = ins.capacity ∧ ∃ q', Queues ins' q' := by
  unfold Inflights.freeFirstOne at hrun
  split at hrun
  · cases hrun
  · rename_i x _
    obtain ⟨ins₁, hfree, hcap, hq⟩ := h.freeTo x
    rw [hfree] at hrun
    cases hrun
    exact ⟨hcap, _, hq⟩

theorem reset (h : Queues ins q) : Queues ins.reset [] :=
  ⟨rfl, Ring.Holds.empty h.holds.buffer_le⟩

/-- An allowed call returns, and does to the queue what it should. -/
theorem run (h : Queues ins q) {c : InflightCall} (hc : c.Allowed ins) :
    ∃ ins', c.run ins = .ok ins' ∧ ins'.capacity = ins.capacity ∧ Queues ins' (c.apply q) := by
  cases c with
  | add inflight => exact h.add hc inflight
  | freeTo to_ => exact h.freeTo to_
  | freeFirstOne =>
      cases q with
      | nil => exact absurd h.count hc
      | cons x q =>
          obtain ⟨ins', hrun, hcap, hq⟩ := h.freeTo x
          exact ⟨ins', h.freeFirstOne.trans hrun, hcap, hq⟩
  | reset => exact ⟨ins.reset, rfl, rfl, h.reset⟩

end Queues

/-! ## §3  The run -/

theorem Queues.runs (h : Queues ins q) {cs : List InflightCall}
    (hcs : EveryInflightCall InflightCall.Allowed cs ins) :
    ∃ ins', cs.foldlM InflightCall.run ins = .ok ins' ∧ ins'.capacity = ins.capacity ∧
      Queues ins' (cs.foldl InflightCall.apply q) := by
  induction cs generalizing ins q with
  | nil => exact ⟨ins, rfl, rfl, h⟩
  | cons c cs ih =>
      obtain ⟨hc, hrest⟩ := hcs
      obtain ⟨ins₁, hrun, hcap, h₁⟩ := h.run hc
      obtain ⟨ins', hruns, hcap', h'⟩ := ih h₁ (hrest ins₁ hrun)
      refine ⟨ins', ?_, hcap'.trans hcap, h'⟩
      rw [List.foldlM_cons, hrun]
      exact hruns

/-- From a new window on, allowed calls never panic, and the window holds the queue the
calls make, which is full at its capacity. -/
theorem window_run (c : ℕ) (cs : List InflightCall)
    (hcs : EveryInflightCall InflightCall.Allowed cs (new c)) :
    ∃ ins, cs.foldlM InflightCall.run (new c) = .ok ins ∧ ins.cap = c ∧
      ins.contents = cs.foldl InflightCall.apply [] ∧ ins.contents.length = ins.count ∧
      ins.contents.length ≤ c ∧ (ins.full = true ↔ ins.contents.length = c) := by
  obtain ⟨ins, hrun, hcap, h⟩ := (queues_new c).runs hcs
  have hcap : ins.capacity = c := hcap
  refine ⟨ins, hrun, hcap, h.contents_eq, ?_, ?_, ?_⟩
  · rw [h.contents_eq, h.count]
  · rw [h.contents_eq, ← hcap]
    exact h.length_le
  · rw [h.contents_eq, ← hcap]
    exact h.full_iff

/-! A window of two slots: the third value goes to the slot of the first. -/

def threeAdded : List InflightCall := [.add 5, .add 7, .freeFirstOne, .add 9]

theorem window_run_threeAdded :
    ∃ ins, threeAdded.foldlM InflightCall.run (new 2) = .ok ins ∧ ins.cap = 2 ∧
      ins.contents = threeAdded.foldl InflightCall.apply [] ∧
      ins.contents.length = ins.count ∧ ins.contents.length ≤ 2 ∧
      (ins.full = true ↔ ins.contents.length = 2) := by
  apply window_run
  refine ⟨rfl, ?_⟩
  rintro _ ⟨⟩
  refine ⟨rfl, ?_⟩
  rintro _ ⟨⟩
  refine ⟨Nat.succ_ne_zero _, ?_⟩
  rintro _ ⟨⟩
  exact ⟨rfl, fun _ _ => trivial⟩

end Inflights

end RsRaft
