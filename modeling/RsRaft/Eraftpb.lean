import Mathlib.Data.UInt
import RsRaft.Lib.PlainLog

/-!
# `eraftpb`: entries, snapshots, messages

The protobuf records of `proto/eraftpb.proto`, with the generated defaults.
`u64` fields are `ℕ`: no index or term reaches `u64::MAX`, and where a
subtraction could leave the range the model says `wrappingSub`.
-/

namespace RsRaft

abbrev Bytes : Type := List UInt8

/-- `u64` subtraction as a release build computes it. -/
def wrappingSub (a b : ℕ) : ℕ := if b ≤ a then a - b else 2 ^ 64 - (b - a)

@[simp] theorem wrappingSub_of_le {a b : ℕ} (h : b ≤ a) : wrappingSub a b = a - b := by
  rw [wrappingSub, if_pos h]

inductive EntryType where
  | EntryNormal
  | EntryConfChange
deriving DecidableEq, Repr

structure Entry where
  entryType : EntryType := .EntryNormal
  term : ℕ := 0
  index : ℕ := 0
  data : Bytes := []
  context : Bytes := []
deriving DecidableEq, Repr

instance : Stamped Entry ℕ := ⟨Entry.term⟩

@[simp] theorem stamp_entry (e : Entry) : Stamped.stamp e = e.term := rfl

/-- A list of entries is consecutive if the indices read off it are. -/
theorem index_of_range' {es : List Entry} {a : ℕ}
    (h : es.map Entry.index = List.range' a es.length) (k : ℕ) (e : Entry)
    (he : es[k]? = some e) : e.index = a + k := by
  have hk : (es.map Entry.index)[k]? = some e.index := by
    rw [List.getElem?_map, he, Option.map_some]
  rw [h, List.getElem?_range' (List.getElem?_eq_some_iff.mp he).1] at hk
  have := Option.some.inj hk
  omega

structure ConfState where
  nodes : List ℕ := []
  learners : List ℕ := []
deriving DecidableEq, Repr

structure SnapshotMetadata where
  confState : ConfState := {}
  index : ℕ := 0
  term : ℕ := 0
deriving DecidableEq, Repr

structure Snapshot where
  data : Bytes := []
  metadata : SnapshotMetadata := {}
deriving DecidableEq, Repr

structure HardState where
  term : ℕ := 0
  vote : ℕ := 0
  commit : ℕ := 0
deriving DecidableEq, Repr

inductive MessageType where
  | MsgHup
  | MsgBeat
  | MsgPropose
  | MsgAppend
  | MsgAppendResponse
  | MsgRequestVote
  | MsgRequestVoteResponse
  | MsgSnapshot
  | MsgHeartbeat
  | MsgHeartbeatResponse
  | MsgUnreachable
  | MsgSnapStatus
  | MsgCheckQuorum
  | MsgTransferLeader
  | MsgTimeoutNow
  | MsgReadIndex
  | MsgReadIndexResponse
  | MsgRequestPreVote
  | MsgRequestPreVoteResponse
deriving DecidableEq, Repr

structure Message where
  msgType : MessageType := .MsgHup
  to_ : ℕ := 0
  from_ : ℕ := 0
  term : ℕ := 0
  logTerm : ℕ := 0
  index : ℕ := 0
  entries : List Entry := []
  commit : ℕ := 0
  snapshot : Snapshot := {}
  reject : Bool := false
  rejectHint : ℕ := 0
  context : Bytes := []
deriving DecidableEq, Repr

/-- `compute_size`, the size a message takes on the wire. What is said about it
here holds for any size. -/
class ProtoMessage (α : Type) where
  computeSize : α → ℕ

/-- The bytes of a varint: seven bits each. -/
def varintSize (n : ℕ) : ℕ := Nat.log2 n / 7 + 1

/-- A length-delimited field behind a one-byte tag. -/
def bytesSize (b : Bytes) : ℕ := 1 + varintSize b.length + b.length

/-- `Entry::compute_size`, a `u32`; fields with their default value take no space. -/
def Entry.computeSize (e : Entry) : ℕ :=
  ((if e.entryType = .EntryNormal then 0 else 2)
    + (if e.term = 0 then 0 else 1 + varintSize e.term)
    + (if e.index = 0 then 0 else 1 + varintSize e.index)
    + (if e.data = [] then 0 else bytesSize e.data)
    + (if e.context = [] then 0 else bytesSize e.context)) % 2 ^ 32

instance : ProtoMessage Entry := ⟨Entry.computeSize⟩

end RsRaft
