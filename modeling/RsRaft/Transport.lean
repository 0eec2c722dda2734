import RsRaft.CodecRoundTrip
import RsRaft.LogicalLog

/-!
# From one node to another

What the accessors of a record show is a message of the model: a message inside that
is absent shows as the default one. Every message whose numbers are `u64` is what some
record shows, and so it can be carried over. On the way an entry takes the bytes that
its size stands for in `limit_size`.

§1 what a record shows · §2 the record of a message · §3 the size of an entry.
-/

namespace RsRaft

open Wire

namespace Eraftpb

variable {R : Runtime}

/-! ## §1  What a record shows -/

def Entry.view (e : Entry R) : RsRaft.Entry where
  entryType := e.entryType
  term := e.term.toNat
  index := e.index.toNat
  data := e.data
  context := e.context

def ConfState.view (cs : ConfState R) : RsRaft.ConfState where
  nodes := cs.nodes.map UInt64.toNat
  learners := cs.learners.map UInt64.toNat

/-- `get_conf_state` shows the default instance where there is none. -/
def SnapshotMetadata.view (sm : SnapshotMetadata R) : RsRaft.SnapshotMetadata where
  confState := (sm.confState.getD .new).view
  index := sm.index.toNat
  term := sm.term.toNat

def Snapshot.view (s : Snapshot R) : RsRaft.Snapshot where
  data := s.data
  metadata := (s.metadata.getD .new).view

def Message.view (m : Message R) : RsRaft.Message where
  msgType := m.msgType
  to_ := m.to_.toNat
  from_ := m.from_.toNat
  term := m.term.toNat
  logTerm := m.logTerm.toNat
  index := m.index.toNat
  entries := m.entries.map Entry.view
  commit := m.commit.toNat
  snapshot := (m.snapshot.getD .new).view
  reject := m.reject
  rejectHint := m.rejectHint.toNat
  context := m.context

end Eraftpb

/-! ## §2  The record of a message -/

section Carried

variable (R : Runtime)

/-- The record a message is set up in; what is at its default stays absent. -/
def Entry.carried (e : Entry) : Eraftpb.Entry R where
  entryType := e.entryType
  term := UInt64.ofNat e.term
  index := UInt64.ofNat e.index
  data := e.data
  context := e.context

def ConfState.carried (cs : ConfState) : Eraftpb.ConfState R where
  nodes := cs.nodes.map UInt64.ofNat
  learners := cs.learners.map UInt64.ofNat

def SnapshotMetadata.carried (sm : SnapshotMetadata) : Eraftpb.SnapshotMetadata R where
  confState := if sm.confState = {} then none else some (sm.confState.carried R)
  index := UInt64.ofNat sm.index
  term := UInt64.ofNat sm.term

def Snapshot.carried (s : Snapshot) : Eraftpb.Snapshot R where
  data := s.data
  metadata := if s.metadata = {} then none else some (s.metadata.carried R)

def Message.carried (m : Message) : Eraftpb.Message R where
  msgType := m.msgType
  to_ := UInt64.ofNat m.to_
  from_ := UInt64.ofNat m.from_
  term := UInt64.ofNat m.term
  logTerm := UInt64.ofNat m.logTerm
  index := UInt64.ofNat m.index
  entries := m.entries.map (Entry.carried R)
  commit := UInt64.ofNat m.commit
  snapshot := if m.snapshot = {} then none else some (m.snapshot.carried R)
  reject := m.reject
  rejectHint := UInt64.ofNat m.rejectHint
  context := m.context

end Carried

/-- The numbers are `u64`. -/
structure Entry.InRange (e : Entry) : Prop where
  term : e.term < 2 ^ 64
  index : e.index < 2 ^ 64

structure ConfState.InRange (cs : ConfState) : Prop where
  nodes : ∀ v ∈ cs.nodes, v < 2 ^ 64
  learners : ∀ v ∈ cs.learners, v < 2 ^ 64

structure SnapshotMetadata.InRange (sm : SnapshotMetadata) : Prop where
  confState : sm.confState.InRange
  index : sm.index < 2 ^ 64
  term : sm.term < 2 ^ 64

structure Message.InRange (m : Message) : Prop where
  to_ : m.to_ < 2 ^ 64
  from_ : m.from_ < 2 ^ 64
  term : m.term < 2 ^ 64
  logTerm : m.logTerm < 2 ^ 64
  index : m.index < 2 ^ 64
  entries : ∀ e ∈ m.entries, e.InRange
  commit : m.commit < 2 ^ 64
  snapshot : m.snapshot.metadata.InRange
  rejectHint : m.rejectHint < 2 ^ 64

section View

variable {R : Runtime}

theorem Entry.view_carried {e : Entry} (h : e.InRange) : (e.carried R).view = e := by
  simp only [carried, Eraftpb.Entry.view, UInt64.toNat_ofNat_of_lt' h.term,
    UInt64.toNat_ofNat_of_lt' h.index]

theorem map_toNat_ofNat {l : List ℕ} (h : ∀ v ∈ l, v < 2 ^ 64) :
    (l.map UInt64.ofNat).map UInt64.toNat = l := by
  rw [List.map_map, List.map_congr_left (g := fun v => v), List.map_id']
  exact fun v hv => UInt64.toNat_ofNat_of_lt' (h v hv)

theorem ConfState.view_carried {cs : ConfState} (h : cs.InRange) : (cs.carried R).view = cs := by
  simp only [carried, Eraftpb.ConfState.view, map_toNat_ofNat h.nodes,
    map_toNat_ofNat h.learners]

theorem SnapshotMetadata.view_carried {sm : SnapshotMetadata} (h : sm.InRange) :
    (sm.carried R).view = sm := by
  have hconfState : ((sm.carried R).confState.getD .new).view = sm.confState := by
    rw [carried]
    split
    · rename_i hdefault
      exact hdefault.symm
    · exact ConfState.view_carried h.confState
  rw [Eraftpb.SnapshotMetadata.view, hconfState]
  simp only [carried, UInt64.toNat_ofNat_of_lt' h.index, UInt64.toNat_ofNat_of_lt' h.term]

theorem Snapshot.view_carried {s : Snapshot} (h : s.metadata.InRange) :
    (s.carried R).view = s := by
  have hmetadata : ((s.carried R).metadata.getD .new).view = s.metadata := by
    rw [carried]
    split
    · rename_i hdefault
      exact hdefault.symm
    · exact SnapshotMetadata.view_carried h
  rw [Eraftpb.Snapshot.view, hmetadata]
  rfl

theorem Message.view_carried {m : Message} (h : m.InRange) : (m.carried R).view = m := by
  have hentries : (m.carried R).entries.map Eraftpb.Entry.view = m.entries := by
    show (m.entries.map (Entry.carried R)).map Eraftpb.Entry.view = m.entries
    rw [List.map_map, List.map_congr_left (g := fun e => e), List.map_id']
    exact fun e he => Entry.view_carried (h.entries e he)
  have hsnapshot : ((m.carried R).snapshot.getD .new).view = m.snapshot := by
    rw [carried]
    split
    · rename_i hdefault
      exact hdefault.symm
    · exact Snapshot.view_carried h.snapshot
  rw [Eraftpb.Message.view, hentries, hsnapshot]
  simp only [carried, UInt64.toNat_ofNat_of_lt' h.to_, UInt64.toNat_ofNat_of_lt' h.from_,
    UInt64.toNat_ofNat_of_lt' h.term, UInt64.toNat_ofNat_of_lt' h.logTerm,
    UInt64.toNat_ofNat_of_lt' h.index, UInt64.toNat_ofNat_of_lt' h.commit,
    UInt64.toNat_ofNat_of_lt' h.rejectHint]

end View

section WellFormed

variable {R : Runtime} (hR : Lawful R)

include hR

theorem ConfState.wellFormed_carried (cs : ConfState) : (cs.carried R).WellFormed :=
  hR.unread_noUnknown

theorem SnapshotMetadata.wellFormed_carried (sm : SnapshotMetadata) :
    (sm.carried R).WellFormed := by
  refine ⟨?_, hR.unread_noUnknown⟩
  intro cs hcs
  rw [carried] at hcs
  split at hcs
  · cases hcs
  · cases hcs
    exact sm.confState.wellFormed_carried hR

theorem Snapshot.wellFormed_carried (s : Snapshot) : (s.carried R).WellFormed := by
  refine ⟨?_, hR.unread_noUnknown⟩
  intro sm hsm
  rw [carried] at hsm
  split at hsm
  · cases hsm
  · cases hsm
    exact s.metadata.wellFormed_carried hR

theorem Message.wellFormed_carried (m : Message) : (m.carried R).WellFormed := by
  refine ⟨⟨?_, ?_⟩, hR.unread_noUnknown⟩
  · intro e he
    obtain ⟨e', -, rfl⟩ := List.mem_map.mp he
    exact hR.unread_noUnknown
  · intro s hs
    rw [carried] at hs
    split at hs
    · cases hs
    · cases hs
      exact m.snapshot.wellFormed_carried hR

end WellFormed

/-- A message reaches the other node as it was handed over. -/
theorem Message.carried_over {R : Runtime} (hR : Lawful R) {m : Message} (h : m.InRange)
    (hlen : (m.carried R).writeTo.length < 2 ^ 32) :
    (Eraftpb.Message.new.mergeFrom (R.fromBytes (m.carried R).writeTo)).map (·.1.view) =
      .ok m := by
  have hread := Eraftpb.Message.reads_writeTo hR (m.wellFormed_carried hR) hlen
  rw [Eraftpb.Message.mergeFrom, hread.merge hR _ _ (hR.rest_fromBytes _)]
  · exact congrArg Except.ok (view_carried h)
  · rw [hR.depth_fromBytes]
    decide

/-- An append of term `300` from node `1` to node `2`, with one entry. -/
theorem Message.carried_over_append :
    let R := Base128.runtime
    let m : Message :=
      { msgType := .MsgAppend, to_ := 2, from_ := 1, term := 300, logTerm := 299, index := 7
        entries := [{ term := 300, index := 8, data := [1, 2, 3] }], commit := 6 }
    (Eraftpb.Message.new.mergeFrom (R.fromBytes (m.carried R).writeTo)).map (·.1.view) =
      .ok m := by
  intro R m
  have hlen : (m.carried R).writeTo.length < 2 ^ 32 := by decide +kernel
  refine carried_over Base128.lawful ?_ hlen
  constructor
  case entries => exact List.forall_mem_singleton.mpr ⟨by decide, by decide⟩
  case snapshot => exact ⟨⟨by decide, by decide⟩, by decide, by decide⟩
  all_goals decide

/-! ## §3  The size of an entry -/

section Size

/-- Entries that can be put into a message: `u32` counts their bytes. -/
structure Entry.Sendable (R : Runtime) (e : Entry) : Prop extends e.InRange where
  length : (e.carried R).writeTo.length < 2 ^ 32

/-- The bytes the entries of a batch take. -/
def wireLength (R : Runtime) (es : List Entry) : ℕ :=
  (es.map fun e => (e.carried R).writeTo.length).sum

/-- A batch a message may carry: an entry that is too large goes alone. -/
def FitsMessage (R : Runtime) (max : ℕ) (es : List Entry) : Prop :=
  max = NO_LIMIT ∨ es.length ≤ 1 ∨ wireLength R es ≤ max

variable {R : Runtime} (hR : Lawful R) (hbits : SevenBit R)

theorem ofNat_ne_zero_iff {v : ℕ} (hv : v < 2 ^ 64) : UInt64.ofNat v ≠ 0 ↔ ¬ v = 0 := by
  rw [Ne, ← UInt64.toNat_inj, UInt64.toNat_ofNat_of_lt' hv]
  rfl

include hR hbits

theorem length_entryType (t : EntryType) :
    (if t ≠ .EntryNormal then R.writeEnum 1 t.value else []).length =
      if t = .EntryNormal then 0 else 2 := by
  cases t with
  | EntryNormal => rfl
  | EntryConfChange =>
      rw [if_pos (by decide), if_neg (by decide), hR.writeEnum, List.length_append,
        hR.tag_low (by decide) (by decide), hbits.length_enum]
      decide +kernel

theorem length_uint64 {n v : ℕ} (hpos : 1 ≤ n) (hn : n ≤ 15) (hv : v < 2 ^ 64) :
    (if UInt64.ofNat v ≠ 0 then R.writeUint64 n (UInt64.ofNat v) else []).length =
      if v = 0 then 0 else 1 + varintSize v := by
  simp only [ofNat_ne_zero_iff hv, ite_not]
  split
  · rfl
  · rw [hR.writeUint64, List.length_append, hR.tag_low hpos hn, hbits.length_uint64,
      UInt64.toNat_ofNat_of_lt' hv, varintSize]

theorem length_bytes {n : ℕ} {b : Bytes} (hpos : 1 ≤ n) (hn : n ≤ 15) (hb : b.length < 2 ^ 32) :
    (if b ≠ [] then R.writeBytes n b else []).length = if b = [] then 0 else bytesSize b := by
  simp only [ne_eq, ite_not]
  split
  · rfl
  · rw [hR.writeBytes, List.length_append, hR.tag_low hpos hn, hbits.length_bytes hb, bytesSize,
      varintSize, ← Nat.add_assoc]

/-- `limit_size` counts the bytes an entry takes on the wire. -/
theorem Entry.computeSize_eq {e : Entry} (h : e.Sendable R) :
    e.computeSize = (e.carried R).writeTo.length := by
  have hlen := h.length
  have hdata := hR.length_le_writeBytes 4 (e.carried R).data
  have hcontext := hR.length_le_writeBytes 6 (e.carried R).context
  have hunknown : (R.writeUnknownFields (e.carried R).unknownFields).length = 0 := by
    rw [carried, hR.writeUnknownFields .none, hR.values_noUnknown]
    rfl
  rw [computeSize, ← length_entryType hR hbits, ← length_uint64 (n := 2) hR hbits (by decide)
    (by decide) h.term, ← length_uint64 (n := 3) hR hbits (by decide) (by decide) h.index]
  simp only [Eraftpb.Entry.writeTo, List.length_append, hunknown] at hlen ⊢
  replace hdata := length_bytes (n := 4) hR hbits (by decide) (by decide)
    (show e.data.length < 2 ^ 32 by exact Nat.lt_of_le_of_lt hdata (by omega))
  replace hcontext := length_bytes (n := 6) hR hbits (by decide) (by decide)
    (show e.context.length < 2 ^ 32 by exact Nat.lt_of_le_of_lt hcontext (by omega))
  rw [← hdata, ← hcontext]
  exact Nat.mod_eq_of_lt hlen

/-- And it is the size that the record computes for itself. -/
theorem Entry.computeSize_carried {e : Entry} (h : e.Sendable R) :
    (e.carried R).computeSize.toNat = e.computeSize := by
  rw [computeSize_eq hR hbits h, (e.carried R).size_writeTo hR hR.unread_noUnknown h.length,
    UInt32.toNat_ofNat_of_lt' h.length]

/-- No entry of a log is empty: it has its index. -/
theorem Entry.computeSize_pos {e : Entry} (h : e.Sendable R) (hindex : e.index ≠ 0) :
    0 < e.computeSize := by
  have hlength : (if (e.carried R).index ≠ 0 then R.writeUint64 3 (e.carried R).index
      else []).length = 1 + varintSize e.index :=
    (length_uint64 hR hbits (by decide) (by decide) h.index).trans (if_neg hindex)
  rw [computeSize_eq hR hbits h]
  simp only [Eraftpb.Entry.writeTo, List.length_append, hlength]
  omega

theorem totalSize_eq_wireLength {es : List Entry} (h : ∀ e ∈ es, e.Sendable R) :
    totalSize es = wireLength R es :=
  congrArg List.sum (List.map_congr_left fun e he => Entry.computeSize_eq hR hbits (h e he))

theorem within_iff_fitsMessage {max : ℕ} {es : List Entry} (h : ∀ e ∈ es, e.Sendable R) :
    Within max es ↔ FitsMessage R max es := by
  rw [Within, totalSize_eq_wireLength hR hbits h]
  rfl

end Size

namespace RaftLog

variable {log : RaftLog MemStorage}

theorem WellFormed.index_ne_zero (h : log.WellFormed) {e : Entry} (he : e ∈ log.logical.tail) :
    e.index ≠ 0 := by
  obtain ⟨i, hi⟩ := PlainLog.mem_tail_iff.mp he
  rw [h.indexed i e hi]
  exact Nat.ne_of_gt (Nat.lt_of_le_of_lt (Nat.zero_le _) (PlainLog.bounds_of_entryAt hi).1)

/-- What is read for a message is the longest beginning of what the log holds from
there on whose bytes go into it. -/
theorem entries_fit_message {R : Runtime} (hR : Lawful R) (hbits : SevenBit R)
    (h : log.WellFormed) (hsend : ∀ e ∈ log.logical.tail, e.Sendable R) {i : ℕ}
    (hlow : log.logical.base < i) (max : ℕ) :
    ∃ es, log.entries i max = .ok (.ok es) ∧
      es <+: log.logical.segment (i - 1) (log.logical.lastIndex + 1 - i) ∧
      FitsMessage R max es ∧
      ∀ es', es' <+: log.logical.segment (i - 1) (log.logical.lastIndex + 1 - i) →
        FitsMessage R max es' → es'.length ≤ es.length := by
  have hmem : ∀ e ∈ log.logical.segment (i - 1) (log.logical.lastIndex + 1 - i),
      e ∈ log.logical.tail :=
    fun e he => List.mem_of_mem_drop (List.mem_of_mem_take he)
  obtain ⟨hbegin, hwithin, hlongest⟩ := limitSize_longestWithin (fun e he =>
    Entry.computeSize_pos hR hbits (hsend e (hmem e he)) (h.index_ne_zero (hmem e he))) max
  refine ⟨_, h.entries_eq hlow max, hbegin, ?_, fun es' hes' hfits => ?_⟩
  · exact (within_iff_fitsMessage hR hbits fun e he =>
      hsend e (hmem e (hbegin.subset he))).mp hwithin
  · exact hlongest es' hes' ((within_iff_fitsMessage hR hbits fun e he =>
      hsend e (hmem e (hes'.subset he))).mpr hfits)

/-- Two entries behind index `2` are read into eight bytes, the third does not fit. -/
theorem entries_fit_message_overlapping :
    let R := Base128.runtime
    ∃ es, overlapping.entries 3 8 = .ok (.ok es) ∧
      es <+: overlapping.logical.segment 2 3 ∧ FitsMessage R 8 es ∧
      ∀ es', es' <+: overlapping.logical.segment 2 3 → FitsMessage R 8 es' →
        es'.length ≤ es.length :=
  entries_fit_message Base128.lawful Base128.sevenBit wellFormed_overlapping
    (by
      intro e he
      have hall : ∀ e ∈ overlapping.logical.tail, e.term < 2 ^ 64 ∧ e.index < 2 ^ 64 ∧
          (e.carried Base128.runtime).writeTo.length < 2 ^ 32 := by decide +kernel
      obtain ⟨hterm, hindex, hlen⟩ := hall e he
      exact ⟨⟨hterm, hindex⟩, hlen⟩)
    (i := 3) (by decide) 8

end RaftLog

end RsRaft
