import Mathlib.Data.List.AList
import Mathlib.Data.Finset.Card

/-!
# Hash maps as duplicate-free association lists

An `AList` is a hash map together with the order in which its iterator yields
the entries; a hash set is a map to `Unit`. Mathlib has lookup, insertion and
erasure. Added here: insertion when absent, updating every value in place, the
effectful `iter_mut` loop, and counting the entries with a property by the
finite set of their keys, which is where cardinality arguments start.
-/

namespace AList

variable {κ ν ν' : Type} [DecidableEq κ]

/-- `len()`. -/
def size (m : AList fun _ : κ => ν) : ℕ := m.entries.length

/-- `entry(k).or_insert(v)`: the first value written for a key stays. -/
def orInsert (k : κ) (v : ν) (m : AList fun _ : κ => ν) : AList fun _ : κ => ν :=
  if k ∈ m.keys then m else m.insert k v

/-- Update every value, in place. -/
def mapValues (f : κ → ν → ν') (m : AList fun _ : κ => ν) : AList fun _ : κ => ν' :=
  ⟨m.entries.map fun e => ⟨e.1, f e.1 e.2⟩, List.NodupKeys.map₂ f _ m.nodupKeys⟩

/-- The `iter_mut` loop: run `f` on every entry in order and store what it
leaves. The keys stay as they are. -/
def forValuesM {M : Type → Type} [Monad M] (f : κ → ν → M ν)
    (m : AList fun _ : κ => ν) : M (AList fun _ : κ => ν) :=
  m.keys.foldlM
    (fun acc k =>
      match acc.lookup k with
      | none => pure acc
      | some v => do
          let v' ← f k v
          pure (acc.replace k v')) m

/-- The keys whose entry satisfies `p`. -/
def keysWhere (p : κ → ν → Bool) (m : AList fun _ : κ => ν) : Finset κ :=
  ((m.entries.filter fun e => p e.1 e.2).map Sigma.fst).toFinset

/-! ## Lookup after insertion -/

theorem lookup_orInsert_self (k : κ) (v : ν) (m : AList fun _ : κ => ν) :
    (m.orInsert k v).lookup k = some ((m.lookup k).getD v) := by
  unfold orInsert
  split
  · rename_i h
    obtain ⟨w, hw⟩ := Option.isSome_iff_exists.mp (AList.lookup_isSome.mpr h)
    simp [hw]
  · rename_i h
    rw [AList.lookup_insert, AList.lookup_eq_none.mpr h, Option.getD_none]

theorem lookup_orInsert_ne {k k' : κ} (v : ν) (m : AList fun _ : κ => ν)
    (h : k' ≠ k) : (m.orInsert k v).lookup k' = m.lookup k' := by
  unfold orInsert
  split
  · rfl
  · exact AList.lookup_insert_ne h

/-- An entry of `orInsert` is an old one, or the new one under a new key. -/
theorem lookup_orInsert {k k' : κ} {v w : ν} {m : AList fun _ : κ => ν}
    (h : (m.orInsert k v).lookup k' = some w) :
    m.lookup k' = some w ∨ (k' = k ∧ w = v ∧ m.lookup k = none) := by
  by_cases hk : k' = k
  · subst hk
    rw [lookup_orInsert_self] at h
    cases hm : m.lookup k' with
    | none => exact Or.inr ⟨rfl, by simpa [hm] using h.symm, rfl⟩
    | some u => exact Or.inl (by simpa [hm] using h)
  · exact Or.inl (by rwa [lookup_orInsert_ne v m hk] at h)

theorem dlookup_kreplace_self {k : κ} {v : ν} {l : List (Sigma fun _ : κ => ν)}
    (h : k ∈ l.keys) : (l.kreplace k v).dlookup k = some v := by
  induction l with
  | nil => cases h
  | cons e l ih =>
      obtain ⟨k', w⟩ := e
      unfold List.kreplace at ih ⊢
      by_cases hk : k = k'
      · subst hk
        have hhere : (if k = k then some (⟨k, v⟩ : Sigma fun _ : κ => ν) else none) =
            some ⟨k, v⟩ := if_pos rfl
        rw [List.lookmap_cons_some _ l hhere, List.dlookup_cons_eq]
      · have hmem : k ∈ l.keys := by
          rw [List.keys_cons] at h
          exact (List.mem_cons.mp h).resolve_left hk
        have hthere : (if k = k' then some (⟨k, v⟩ : Sigma fun _ : κ => ν) else none) =
            none := if_neg hk
        rw [List.lookmap_cons_none _ l hthere, List.dlookup_cons_ne _ _ hk]
        exact ih hmem

/-- Replacing the value of a key that is there. -/
theorem lookup_replace_self {k : κ} {m : AList fun _ : κ => ν} (v : ν) (h : k ∈ m) :
    (m.replace k v).lookup k = some v := dlookup_kreplace_self h

theorem dlookup_kreplace_ne {k k' : κ} (v : ν) (l : List (Sigma fun _ : κ => ν)) (h : k' ≠ k) :
    (l.kreplace k v).dlookup k' = l.dlookup k' := by
  induction l with
  | nil => rfl
  | cons e l ih =>
      obtain ⟨k'', w⟩ := e
      unfold List.kreplace at ih ⊢
      by_cases hk : k = k''
      · subst hk
        have hhere : (if k = k then some (⟨k, v⟩ : Sigma fun _ : κ => ν) else none) =
            some ⟨k, v⟩ := if_pos rfl
        rw [List.lookmap_cons_some _ l hhere, List.dlookup_cons_ne _ _ h,
          List.dlookup_cons_ne _ _ h]
      · have hthere : (if k = k'' then some (⟨k, v⟩ : Sigma fun _ : κ => ν) else none) =
            none := if_neg hk
        rw [List.lookmap_cons_none _ l hthere]
        by_cases hk' : k' = k''
        · subst hk'
          rw [List.dlookup_cons_eq, List.dlookup_cons_eq]
        · rw [List.dlookup_cons_ne _ _ hk', List.dlookup_cons_ne _ _ hk', ih]

/-- The values of the other keys stay. -/
theorem lookup_replace_ne {k k' : κ} {m : AList fun _ : κ => ν} (v : ν) (h : k' ≠ k) :
    (m.replace k v).lookup k' = m.lookup k' := dlookup_kreplace_ne v m.entries h

theorem mem_orInsert {k k' : κ} {v : ν} {m : AList fun _ : κ => ν} :
    k' ∈ m.orInsert k v ↔ k' = k ∨ k' ∈ m := by
  unfold orInsert
  split
  · rename_i h
    constructor
    · exact Or.inr
    · rintro (rfl | h')
      · exact h
      · exact h'
  · exact AList.mem_insert m

theorem mem_iff_exists_lookup {k : κ} {m : AList fun _ : κ => ν} :
    k ∈ m ↔ ∃ v, m.lookup k = some v := by
  rw [← AList.lookup_isSome, Option.isSome_iff_exists]

theorem lookup_mapValues (f : κ → ν → ν') (m : AList fun _ : κ => ν) (k : κ) :
    (m.mapValues f).lookup k = (m.lookup k).map (f k) :=
  List.dlookup_map₂ (f := f) k

theorem mem_foldr_insert {v : ν} {k : κ} {ks : List κ} :
    k ∈ ks.foldr (fun k' m => m.insert k' v) (∅ : AList fun _ : κ => ν) ↔ k ∈ ks := by
  induction ks with
  | nil => simp
  | cons k' ks ih => rw [List.foldr_cons, AList.mem_insert, ih, List.mem_cons]

/-- Every finite set is the key set of some map to `Unit`. -/
theorem exists_keys_eq (A : Finset κ) :
    ∃ S : AList fun _ : κ => Unit, S.keys.toFinset = A := by
  induction A using Finset.induction_on with
  | empty => exact ⟨∅, rfl⟩
  | insert k A _ ih =>
      obtain ⟨S, rfl⟩ := ih
      refine ⟨S.insert k (), ?_⟩
      ext k'
      rw [List.mem_toFinset, ← AList.mem_keys, AList.mem_insert, Finset.mem_insert,
        List.mem_toFinset, AList.mem_keys]

/-! ## Counting entries by their keys -/

theorem mem_keysWhere {p : κ → ν → Bool} {m : AList fun _ : κ => ν} {k : κ} :
    k ∈ m.keysWhere p ↔ ∃ v, m.lookup k = some v ∧ p k v = true := by
  simp only [keysWhere, List.mem_toFinset, List.mem_map, List.mem_filter]
  constructor
  · rintro ⟨⟨k', v⟩, ⟨hmem, hp⟩, rfl⟩
    exact ⟨v, AList.mem_lookup_iff.mpr hmem, hp⟩
  · rintro ⟨v, hv, hp⟩
    exact ⟨⟨k, v⟩, ⟨AList.mem_lookup_iff.mp hv, hp⟩, rfl⟩

theorem card_keysWhere (p : κ → ν → Bool) (m : AList fun _ : κ => ν) :
    (m.keysWhere p).card = m.entries.countP fun e => p e.1 e.2 := by
  have hnd : ((m.entries.filter fun e => p e.1 e.2).map Sigma.fst).Nodup :=
    m.nodupKeys.sublist (List.filter_sublist)
  rw [keysWhere, List.toFinset_card_of_nodup hnd, List.length_map,
    List.countP_eq_length_filter]

theorem card_keys (m : AList fun _ : κ => ν) : m.keys.toFinset.card = m.size := by
  rw [List.toFinset_card_of_nodup m.keys_nodup, AList.keys, List.keys, List.length_map,
    size]

end AList
