import RsRaft.Lib.KeyMap

/-!
# A queue of keys beside a map

A queue of keys and a map from these keys, kept in step: the queue has no key
twice and its keys are those of the map. Together they are a first-in-first-out
queue of the values; each operation of the pair is one operation of that queue.
-/

namespace KeyedQueue

variable {κ ν ω : Type} [DecidableEq κ] {queue : List κ} {m : AList fun _ : κ => ν} {k : κ} {v : ν}

/-- The values, in the order of the queue. -/
def values (queue : List κ) (m : AList fun _ : κ => ν) : List ν := queue.filterMap m.lookup

structure InStep (queue : List κ) (m : AList fun _ : κ => ν) : Prop where
  nodup : queue.Nodup
  mem_iff : ∀ k, k ∈ queue ↔ k ∈ m

/-- Keys that look up alike have the same values. -/
theorem values_congr {m' : AList fun _ : κ => ν} (h : ∀ k ∈ queue, m'.lookup k = m.lookup k) :
    values queue m' = values queue m := List.filterMap_congr h

theorem values_append (front back : List κ) :
    values (front ++ back) m = values front m ++ values back m := List.filterMap_append

namespace InStep

omit [DecidableEq κ] in
theorem empty : InStep [] (∅ : AList fun _ : κ => ν) :=
  ⟨List.nodup_nil, fun k => by simp⟩

theorem exists_lookup (h : InStep queue m) (hk : k ∈ queue) : ∃ v, m.lookup k = some v :=
  AList.mem_iff_exists_lookup.mp ((h.mem_iff k).mp hk)

/-- A new key at the end. -/
theorem push (h : InStep queue m) (hk : k ∉ m) (v : ν) :
    InStep (queue ++ [k]) (m.insert k v) ∧
      values (queue ++ [k]) (m.insert k v) = values queue m ++ [v] := by
  have hout : k ∉ queue := fun hq => hk ((h.mem_iff k).mp hq)
  refine ⟨⟨?_, ?_⟩, ?_⟩
  · rw [List.nodup_append]
    refine ⟨h.nodup, List.nodup_singleton k, ?_⟩
    rintro a ha b hb rfl
    obtain rfl := List.mem_singleton.mp hb
    exact hout ha
  · intro k'
    rw [List.mem_append, List.mem_singleton, AList.mem_insert, h.mem_iff, or_comm]
  · have hold : values queue (m.insert k v) = values queue m := by
      apply values_congr
      intro k' hk'
      exact AList.lookup_insert_ne fun heq => hout (heq ▸ hk')
    rw [values_append, hold]
    simp [values]

/-- Replacing a value leaves the queue of keys alone. -/
theorem replace (h : InStep queue m) (k : κ) (v : ν) : InStep queue (m.replace k v) :=
  ⟨h.nodup, fun k' => by rw [AList.mem_replace, h.mem_iff]⟩

/-- What a replaced value shares with the old one stays the same all along the queue. -/
theorem map_values_replace (f : ν → ω) {v' : ν} (hv : m.lookup k = some v) (hf : f v' = f v) :
    (values queue (m.replace k v')).map f = (values queue m).map f := by
  have hmem : k ∈ m := AList.mem_iff_exists_lookup.mpr ⟨v, hv⟩
  rw [values, values, List.map_filterMap, List.map_filterMap]
  apply List.filterMap_congr
  intro k' _
  by_cases hk : k' = k
  · rw [hk, AList.lookup_replace_self v' hmem, hv, Option.map_some, Option.map_some, hf]
  · rw [AList.lookup_replace_ne v' hk]

/-- The first key leaves, and its value with it. -/
theorem pop (h : InStep (k :: queue) m) :
    ∃ v, m.lookup k = some v ∧ InStep queue (m.erase k) ∧
      values (k :: queue) m = v :: values queue (m.erase k) := by
  obtain ⟨v, hv⟩ := h.exists_lookup List.mem_cons_self
  obtain ⟨hout, hnodup⟩ := List.nodup_cons.mp h.nodup
  refine ⟨v, hv, ⟨hnodup, ?_⟩, ?_⟩
  · intro k'
    rw [AList.mem_erase, ← h.mem_iff, List.mem_cons]
    constructor
    · intro hk'
      exact ⟨fun heq => hout (heq ▸ hk'), Or.inr hk'⟩
    · rintro ⟨hne, hk'⟩
      exact hk'.resolve_left hne
  · have hrest : values queue (m.erase k) = values queue m := by
      apply values_congr
      intro k' hk'
      exact AList.lookup_erase_ne fun heq => hout (heq ▸ hk')
    rw [hrest, values, List.filterMap_cons, hv]
    rfl

end InStep

end KeyedQueue
