import RsRaft.LogRun

/-!
# Delivering committed entries

The application takes `next_entries` and reports the index of the last one it
got through `applied_to`. Whatever is written in between, the deliveries put
together are one segment of the log: the entries from the first to the last
applied index, as the log still holds them.

§1 the next entries · §2 the run · §3 exactly once.
-/

namespace RsRaft

open PlainLog

namespace RaftLog

section

variable [ProtoMessage Entry] {log log' : RaftLog MemStorage} {es out : List Entry} {e : Entry}

/-! ## §1  The next entries -/

namespace Sound

/-- Next are the committed entries not yet applied. -/
theorem nextEntries (h : Sound log) :
    log.nextEntries = .ok (if log.applied < log.committed
      then some (log.logical.segment log.applied (log.committed - log.applied)) else none) := by
  have hb := h.base_le
  have hc := h.committed_le
  rw [RaftLog.nextEntries, RaftLog.nextEntriesSince, h.wellFormed.presents.firstIndex, ok_bind,
    Nat.max_eq_left (by omega)]
  by_cases hlt : log.applied < log.committed
  · rw [if_pos (by omega), if_pos hlt, h.wellFormed.slice_eq (by omega) (by omega) (by omega),
      limitSize_noLimit, ok_bind, Nat.add_sub_cancel, Nat.add_sub_add_right]
    rfl
  · rw [if_neg (by omega), if_neg hlt]
    rfl

theorem hasNextEntries (h : Sound log) :
    log.hasNextEntries = .ok (decide (log.committed > log.applied)) := by
  have hb := h.base_le
  rw [RaftLog.hasNextEntries, RaftLog.hasNextEntriesSince, h.wellFormed.presents.firstIndex,
    ok_bind, Nat.max_eq_left (by omega), pure_eq_ok, Except.ok.injEq, decide_eq_decide]
  omega

/-- A delivery ends with the last committed entry. -/
theorem delivered (h : Sound log) (hnext : log.nextEntries = .ok (some es))
    (hlast : es.getLast? = some e) :
    log.applied < log.committed ∧
      es = log.logical.segment log.applied (log.committed - log.applied) ∧
      e.index = log.committed := by
  have hb := h.base_le
  have hc := h.committed_le
  rw [h.nextEntries] at hnext
  by_cases hlt : log.applied < log.committed
  · rw [if_pos hlt] at hnext
    cases hnext
    refine ⟨hlt, rfl, ?_⟩
    rw [List.getLast?_eq_getElem?, length_segment hb (by omega),
      segment_getElem? hb (by omega)] at hlast
    have := h.wellFormed.indexed _ _ hlast
    omega
  · rw [if_neg hlt] at hnext
    cases hnext

end Sound

/-! ## §2  The run -/

/-- Writes and deliveries from `log₀` on, none panicking; `out` is everything
delivered so far. -/
inductive Delivery (log₀ : RaftLog MemStorage) : List Entry → RaftLog MemStorage → Prop
  | start : Delivery log₀ [] log₀
  | write {out : List Entry} {log log' : RaftLog MemStorage} {w : LogWrite}
      (h : Delivery log₀ out log) (hw : w.Admissible) (hrun : w.run log = .ok log') :
      Delivery log₀ out log'
  | deliver {out es : List Entry} {e : Entry} {log log' : RaftLog MemStorage}
      (h : Delivery log₀ out log) (hnext : log.nextEntries = .ok (some es))
      (hlast : es.getLast? = some e) (happly : log.appliedTo e.index = .ok log') :
      Delivery log₀ (out ++ es) log'

/-- What has been delivered is the segment of the log up to the applied index. -/
structure DeliveredSegment (log₀ : RaftLog MemStorage) (out : List Entry)
    (log : RaftLog MemStorage) : Prop where
  sound : Sound log
  base_le : log.logical.base ≤ log₀.applied
  applied_le : log₀.applied ≤ log.applied
  out_eq : out = log.logical.segment log₀.applied (log.applied - log₀.applied)

variable {log₀ : RaftLog MemStorage}

theorem DeliveredSegment.write (h : DeliveredSegment log₀ out log) {w : LogWrite}
    (hw : w.Admissible) (hrun : w.run log = .ok log') : DeliveredSegment log₀ out log' := by
  obtain ⟨hs, hadv⟩ := h.sound.write hw hrun
  have hframe : log'.applied = log.applied := w.applied_of_run hw hrun
  have hb := h.base_le
  have ha := h.applied_le
  have hac := h.sound.applied_le
  have hcl := h.sound.committed_le
  have hcc := hadv.committed_le
  have hcl' := hs.committed_le
  have hbase := hadv.base
  refine ⟨hs, by omega, by omega, ?_⟩
  -- everything delivered was committed, and stays as it was
  rw [h.out_eq, hframe]
  exact (segment_congr (by omega) hb (by omega) (by omega)
    fun j hj => hadv.kept j (by omega)).symm

theorem DeliveredSegment.deliver (h : DeliveredSegment log₀ out log)
    (hnext : log.nextEntries = .ok (some es)) (hlast : es.getLast? = some e)
    (happly : log.appliedTo e.index = .ok log') : DeliveredSegment log₀ (out ++ es) log' := by
  obtain ⟨hlt, hes, hidx⟩ := h.sound.delivered hnext hlast
  have hb := h.base_le
  have ha := h.applied_le
  have happlied : log' = { log with applied := log.committed } := by
    rw [hidx, RaftLog.appliedTo, if_neg (by omega), if_neg (by omega)] at happly
    cases happly
    rfl
  obtain ⟨hs, _⟩ := h.sound.appliedTo happly
  subst happlied
  refine ⟨hs, hb, by dsimp only; omega, ?_⟩
  -- the new entries go on where the delivered ones end
  rw [h.out_eq, hes]
  show _ = log.logical.segment log₀.applied (log.committed - log₀.applied)
  rw [show log.committed - log₀.applied =
    (log.applied - log₀.applied) + (log.committed - log.applied) by omega, segment_add hb,
    show log₀.applied + (log.applied - log₀.applied) = log.applied by omega]

theorem Delivery.segment (h₀ : Sound log₀) (hrun : Delivery log₀ out log) :
    DeliveredSegment log₀ out log := by
  induction hrun with
  | start => exact ⟨h₀, h₀.base_le, Nat.le_refl _, by rw [Nat.sub_self, segment_zero]⟩
  | write _ hw hrun ih => exact ih.write hw hrun
  | deliver _ hnext hlast happly ih => exact ih.deliver hnext hlast happly

/-! ## §3  Exactly once -/

/-- Everything delivered is the log between the two applied indices, entry by entry and
as the log now reads; and there is more to deliver exactly if there is more committed. -/
structure ExactlyOnce (log₀ : RaftLog MemStorage) (out : List Entry)
    (log : RaftLog MemStorage) : Prop where
  applied_le : log₀.applied ≤ log.applied
  segment : out = log.logical.segment log₀.applied (log.applied - log₀.applied)
  read : log.slice (log₀.applied + 1) (log.applied + 1) NO_LIMIT = .ok (.ok out)
  length : out.length = log.applied - log₀.applied
  index : ∀ k e, out[k]? = some e → e.index = log₀.applied + 1 + k
  next : ∃ o, log.nextEntries = .ok o ∧ (o.isSome ↔ log.committed > log.applied)
  hasNext : ∃ b, log.hasNextEntries = .ok b ∧ (b = true ↔ log.committed > log.applied)

theorem delivered_exactly_once {store : MemStorage} (hstore : store.core.WellFormed)
    (hnew : RaftLog.new store = .ok log₀) (hrun : Delivery log₀ out log) :
    ExactlyOnce log₀ out log := by
  have h := hrun.segment (sound_new hstore hnew).1
  have hb := h.base_le
  have ha := h.applied_le
  have hac := h.sound.applied_le
  have hcl := h.sound.committed_le
  refine ⟨ha, h.out_eq, ?_, ?_, ?_, ⟨_, h.sound.nextEntries, ?_⟩, ⟨_, h.sound.hasNextEntries, ?_⟩⟩
  · rw [h.sound.wellFormed.slice_eq (by omega) (by omega) (by omega), limitSize_noLimit,
      Nat.add_sub_cancel, Nat.add_sub_add_right, h.out_eq]
  · rw [h.out_eq, length_segment hb (by omega)]
  · intro k e he
    have hk := (List.getElem?_eq_some_iff.mp he).1
    rw [h.out_eq, length_segment hb (by omega)] at hk
    rw [h.out_eq, segment_getElem? hb hk] at he
    exact h.sound.wellFormed.indexed _ _ he
  · by_cases hlt : log.applied < log.committed
    · simp [hlt]
    · simp [hlt]
  · exact decide_eq_true_iff

end

/-! The first entry is delivered, the second replaced before it is committed and
delivered. -/

def bothDelivered : RaftLog MemStorage :=
  { freshLog with
    unstable := { offset := 1, entries := [{ term := 1, index := 1 }, { term := 2, index := 2 }] }
    committed := 2
    applied := 2 }

theorem delivery_bothDelivered : Delivery freshLog
    [{ term := 1, index := 1 }, { term := 2, index := 2 }] bothDelivered := by
  have h₀ : Consecutive 0 [({ term := 1, index := 1 } : Entry), { term := 1, index := 2 }] :=
    index_of_range' (by decide)
  have h₁ : Consecutive 1 [({ term := 2, index := 2 } : Entry)] := index_of_range' (by decide)
  have hstart : Delivery freshLog [] freshLog := .start
  have hwrite := Delivery.write (w := .append _) hstart ⟨0, h₀⟩ rfl
  have hcommit := Delivery.write (w := .commitTo 1) hwrite trivial rfl
  have hfirst := Delivery.deliver hcommit rfl rfl rfl
  have hreplace := Delivery.write (w := .maybeAppend 1 1 2 _) hfirst h₁ rfl
  exact Delivery.deliver hreplace rfl rfl rfl

theorem delivered_exactly_once_bothDelivered : ExactlyOnce freshLog
    [{ term := 1, index := 1 }, { term := 2, index := 2 }] bothDelivered :=
  delivered_exactly_once MemStorageCore.wellFormed_default
    (show RaftLog.new {} = .ok freshLog from rfl) delivery_bothDelivered

end RaftLog

end RsRaft
