import RsRaft.Errors

/-!
# `log_unstable.rs`: the tail of the log not yet in the store
-/

namespace RsRaft

structure Unstable where
  snapshot : Option Snapshot := none
  entries : List Entry := []
  offset : ℕ := 0
deriving DecidableEq, Repr

namespace Unstable

def new (offset : ℕ) : Unstable := { offset := offset }

def maybeFirstIndex (u : Unstable) : Option ℕ :=
  u.snapshot.map fun s => s.metadata.index + 1

def maybeLastIndex (u : Unstable) : Option ℕ :=
  match u.entries.length with
  | 0 => u.snapshot.map fun s => s.metadata.index
  | len => some (u.offset + len - 1)

def maybeTerm (u : Unstable) (idx : ℕ) : Except Panic (Option ℕ) :=
  if idx < u.offset then
    match u.snapshot with
    | none => .ok none
    | some s => .ok (if idx = s.metadata.index then some s.metadata.term else none)
  else
    match u.maybeLastIndex with
    | none => .ok none
    | some last =>
        if idx > last then .ok none
        else
          match u.entries[idx - u.offset]? with
          | some e => .ok (some e.term)
          | none => .error .indexOutOfBounds

def stableTo (u : Unstable) (idx term : ℕ) : Except Panic Unstable := do
  match ← u.maybeTerm idx with
  | none => pure u
  | some t =>
      if t = term ∧ idx ≥ u.offset then
        let start := idx + 1 - u.offset
        if start ≤ u.entries.length then
          pure { u with entries := u.entries.drop start, offset := idx + 1 }
        else throw .indexOutOfBounds
      else pure u

def stableSnapshotTo (u : Unstable) (idx : ℕ) : Unstable :=
  match u.snapshot with
  | none => u
  | some s => if idx = s.metadata.index then { u with snapshot := none } else u

/-- The offset becomes the index of the snapshot itself, not the one behind it. -/
def restore (_u : Unstable) (snapshot : Snapshot) : Unstable :=
  { snapshot := some snapshot, entries := [], offset := snapshot.metadata.index }

def mustCheckOutOfBounds (u : Unstable) (low high : ℕ) : Except Panic Unit :=
  if low > high then .error (.invalidUnstableSlice low high)
  else
    let upper := u.offset + u.entries.length
    if low < u.offset ∨ high > upper then
      .error (.unstableOutOfBound low high u.offset upper)
    else .ok ()

def slice (u : Unstable) (low high : ℕ) : Except Panic (List Entry) := do
  u.mustCheckOutOfBounds low high
  sliceVec u.entries (low - u.offset) (high - u.offset)

def truncateAndAppend (u : Unstable) (entries : List Entry) : Except Panic Unstable :=
  match entries with
  | [] => .error .indexOutOfBounds
  | e :: _ =>
      let after := e.index
      if after = u.offset + u.entries.length then
        .ok { u with entries := u.entries ++ entries }
      -- replaces the whole tail; the pending snapshot stays
      else if after ≤ u.offset then .ok { u with offset := after, entries := entries }
      else do
        u.mustCheckOutOfBounds u.offset after
        pure { u with entries := u.entries.take (after - u.offset) ++ entries }

/-- Truncating and appending moves the tail down only, and leaves it non-empty. -/
theorem truncateAndAppend_frame {u u' : Unstable} {entries : List Entry}
    (h : u.truncateAndAppend entries = .ok u') :
    u'.snapshot = u.snapshot ∧ u'.offset ≤ u.offset ∧ u'.entries ≠ [] := by
  cases entries with
  | nil => cases h
  | cons e es =>
      simp only [truncateAndAppend] at h
      split at h
      · cases h
        exact ⟨rfl, Nat.le_refl _, by simp⟩
      · split at h
        · rename_i hle
          cases h
          exact ⟨rfl, hle, by simp⟩
        · obtain ⟨_, _, h⟩ := bind_eq_ok h
          cases h
          exact ⟨rfl, Nat.le_refl _, by simp⟩

/-! ## Reading the tail -/

theorem maybeLastIndex_of_ne_nil {u : Unstable} (h : u.entries ≠ []) :
    u.maybeLastIndex = some (u.offset + u.entries.length - 1) := by
  unfold maybeLastIndex
  split
  · rename_i hlen
    exact absurd (List.length_eq_zero_iff.mp hlen) h
  · rfl

theorem maybeLastIndex_of_nil {u : Unstable} (h : u.entries = []) :
    u.maybeLastIndex = u.snapshot.map fun s => s.metadata.index := by
  simp [maybeLastIndex, h]

/-- From the offset on, terms are read off the entries. -/
theorem maybeTerm_of_getElem? {u : Unstable} {idx : ℕ} {e : Entry} (hge : u.offset ≤ idx)
    (he : u.entries[idx - u.offset]? = some e) : u.maybeTerm idx = .ok (some e.term) := by
  have hlt := (List.getElem?_eq_some_iff.mp he).1
  have hne : u.entries ≠ [] := by
    rintro h
    simp [h] at hlt
  rw [maybeTerm, if_neg (by omega), maybeLastIndex_of_ne_nil hne]
  simp only [he]
  rw [if_neg (by omega)]

theorem maybeTerm_of_lt {u : Unstable} {idx : ℕ} (h : idx < u.offset)
    (hs : u.snapshot = none) : u.maybeTerm idx = .ok none := by
  rw [maybeTerm, if_pos h, hs]

/-- Without a pending snapshot the tail knows the terms of its entries, and no others. -/
theorem maybeTerm_eq {u : Unstable} (hs : u.snapshot = none) (idx : ℕ) :
    u.maybeTerm idx = .ok (if u.offset ≤ idx
      then u.entries[idx - u.offset]?.map Entry.term else none) := by
  by_cases hlow : u.offset ≤ idx
  · rw [if_pos hlow]
    cases he : u.entries[idx - u.offset]? with
    | some e => exact maybeTerm_of_getElem? hlow he
    | none =>
        have hlen := List.getElem?_eq_none_iff.mp he
        rw [maybeTerm, if_neg (by omega)]
        by_cases hnil : u.entries = []
        · rw [maybeLastIndex_of_nil hnil, hs]
          rfl
        · have := List.length_pos_iff.mpr hnil
          rw [maybeLastIndex_of_ne_nil hnil]
          dsimp only
          rw [if_pos (by omega)]
          rfl
  · rw [if_neg hlow, maybeTerm_of_lt (by omega) hs]

/-- The tail holds an entry of this term at this index. -/
def Knows (u : Unstable) (idx term : ℕ) : Prop :=
  u.offset ≤ idx ∧ u.entries[idx - u.offset]?.map Entry.term = some term

instance (u : Unstable) (idx term : ℕ) : Decidable (u.Knows idx term) :=
  inferInstanceAs (Decidable (_ ∧ _))

/-- What the store has taken over leaves the tail, if it is still there. -/
theorem stableTo_eq {u : Unstable} (hs : u.snapshot = none) (idx term : ℕ) :
    u.stableTo idx term = .ok (if u.Knows idx term
      then { u with entries := u.entries.drop (idx + 1 - u.offset), offset := idx + 1 }
      else u) := by
  rw [stableTo, maybeTerm_eq hs, ok_bind]
  by_cases hlow : u.offset ≤ idx
  · rw [if_pos hlow]
    cases he : u.entries[idx - u.offset]? with
    | none =>
        have hno : ¬ u.Knows idx term := by
          rintro ⟨_, hterm⟩
          rw [he] at hterm
          cases hterm
        rw [if_neg hno]
        rfl
    | some e =>
        have hlt := (List.getElem?_eq_some_iff.mp he).1
        dsimp only [Option.map_some]
        by_cases ht : e.term = term
        · have hyes : u.Knows idx term := ⟨hlow, by rw [he, Option.map_some, ht]⟩
          rw [if_pos ⟨ht, hlow⟩, if_pos (by omega), if_pos hyes]
          rfl
        · have hno : ¬ u.Knows idx term := by
            rintro ⟨_, hterm⟩
            rw [he, Option.map_some] at hterm
            exact ht (Option.some.inj hterm)
          rw [if_neg (fun h => ht h.1), if_neg hno]
          rfl
  · have hno : ¬ u.Knows idx term := fun h => hlow h.1
    rw [if_neg hlow, if_neg hno]
    rfl

/-- A range inside the tail is read off the entries. -/
theorem slice_of_mem {u : Unstable} {low high : ℕ} (h₁ : u.offset ≤ low) (h₂ : low ≤ high)
    (h₃ : high ≤ u.offset + u.entries.length) :
    u.slice low high = .ok ((u.entries.drop (low - u.offset)).take (high - low)) := by
  rw [slice, mustCheckOutOfBounds, if_neg (by omega), if_neg (by omega), ok_bind, sliceVec,
    if_pos (by omega), show high - u.offset - (low - u.offset) = high - low by omega]

end Unstable

end RsRaft
