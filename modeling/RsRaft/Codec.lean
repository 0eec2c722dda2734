import RsRaft.Eraftpb
import RsRaft.Lib.Wire

/-!
# `eraftpb` on the wire

The records as they are generated, over the runtime they are generated for: a field
that is a message may be absent, and what the reader does not know is kept beside the
fields it knows. For each record there is the table of arms in `merge_from`, and there
are `compute_size` and `write_to_with_cached_sizes`; the cached size is the one
`compute_size` has just set, so it is computed again where it is read.
-/

namespace RsRaft

open Wire

def EntryType.value : EntryType → Int32
  | .EntryNormal => 0
  | .EntryConfChange => 1

def EntryType.fromI32 : Int32 → Option EntryType
  | 0 => some .EntryNormal
  | 1 => some .EntryConfChange
  | _ => none

theorem EntryType.fromI32_value (t : EntryType) : fromI32 t.value = some t := by
  cases t <;> rfl

def MessageType.value : MessageType → Int32
  | .MsgHup => 0
  | .MsgBeat => 1
  | .MsgPropose => 2
  | .MsgAppend => 3
  | .MsgAppendResponse => 4
  | .MsgRequestVote => 5
  | .MsgRequestVoteResponse => 6
  | .MsgSnapshot => 7
  | .MsgHeartbeat => 8
  | .MsgHeartbeatResponse => 9
  | .MsgUnreachable => 10
  | .MsgSnapStatus => 11
  | .MsgCheckQuorum => 12
  | .MsgTransferLeader => 13
  | .MsgTimeoutNow => 14
  | .MsgReadIndex => 15
  | .MsgReadIndexResponse => 16
  | .MsgRequestPreVote => 17
  | .MsgRequestPreVoteResponse => 18

def MessageType.fromI32 : Int32 → Option MessageType
  | 0 => some .MsgHup
  | 1 => some .MsgBeat
  | 2 => some .MsgPropose
  | 3 => some .MsgAppend
  | 4 => some .MsgAppendResponse
  | 5 => some .MsgRequestVote
  | 6 => some .MsgRequestVoteResponse
  | 7 => some .MsgSnapshot
  | 8 => some .MsgHeartbeat
  | 9 => some .MsgHeartbeatResponse
  | 10 => some .MsgUnreachable
  | 11 => some .MsgSnapStatus
  | 12 => some .MsgCheckQuorum
  | 13 => some .MsgTransferLeader
  | 14 => some .MsgTimeoutNow
  | 15 => some .MsgReadIndex
  | 16 => some .MsgReadIndexResponse
  | 17 => some .MsgRequestPreVote
  | 18 => some .MsgRequestPreVoteResponse
  | _ => none

theorem MessageType.fromI32_value (t : MessageType) : fromI32 t.value = some t := by
  cases t <;> rfl

namespace Eraftpb

section Records

variable (R : Runtime)

structure Entry where
  entryType : EntryType := .EntryNormal
  term : UInt64 := 0
  index : UInt64 := 0
  data : Bytes := []
  context : Bytes := []
  unknownFields : R.UnknownFields := R.noUnknown

structure ConfState where
  nodes : List UInt64 := []
  learners : List UInt64 := []
  unknownFields : R.UnknownFields := R.noUnknown

structure SnapshotMetadata where
  confState : Option (ConfState R) := none
  index : UInt64 := 0
  term : UInt64 := 0
  unknownFields : R.UnknownFields := R.noUnknown

structure Snapshot where
  data : Bytes := []
  metadata : Option (SnapshotMetadata R) := none
  unknownFields : R.UnknownFields := R.noUnknown

structure Message where
  msgType : MessageType := .MsgHup
  to_ : UInt64 := 0
  from_ : UInt64 := 0
  term : UInt64 := 0
  logTerm : UInt64 := 0
  index : UInt64 := 0
  entries : List (Entry R) := []
  commit : UInt64 := 0
  snapshot : Option (Snapshot R) := none
  reject : Bool := false
  rejectHint : UInt64 := 0
  context : Bytes := []
  unknownFields : R.UnknownFields := R.noUnknown

structure HardState where
  term : UInt64 := 0
  vote : UInt64 := 0
  commit : UInt64 := 0
  unknownFields : R.UnknownFields := R.noUnknown

end Records

variable {R : Runtime}

/-! ## `Entry` -/

namespace Entry

def new : Entry R := {}

def field : ℕ → Option (R.Arm (Entry R))
  | 1 => some (R.enumArm EntryType.fromI32 1 entryType unknownFields
      fun entryType unknownFields e => { e with entryType, unknownFields })
  | 2 => some (R.uint64Arm fun term e => { e with term })
  | 3 => some (R.uint64Arm fun index e => { e with index })
  | 4 => some (R.bytesArm data fun data e => { e with data })
  | 6 => some (R.bytesArm context fun context e => { e with context })
  | _ => none

def record : Record R (Entry R) where
  new := new
  field := field
  Nameless n i := n = 1 ∧ EntryType.fromI32 i = none
  unknownFields := unknownFields
  setUnknownFields unknownFields e := { e with unknownFields }
  unknownFields_new := rfl
  unknownFields_set _ _ := rfl
  set_set _ _ _ := rfl
  set_unknownFields _ := rfl

def mergeFrom (e : Entry R) : Reader R.Input R.Error (Entry R) := record.mergeFrom e

def computeSize (e : Entry R) : UInt32 :=
  (if e.entryType ≠ .EntryNormal then R.enumSize 1 e.entryType.value else 0)
    + (if e.term ≠ 0 then R.valueSize 2 e.term .Varint else 0)
    + (if e.index ≠ 0 then R.valueSize 3 e.index .Varint else 0)
    + (if e.data ≠ [] then R.bytesSize 4 e.data else 0)
    + (if e.context ≠ [] then R.bytesSize 6 e.context else 0)
    + R.unknownFieldsSize e.unknownFields

def writeTo (e : Entry R) : Bytes :=
  (if e.entryType ≠ .EntryNormal then R.writeEnum 1 e.entryType.value else [])
    ++ (if e.term ≠ 0 then R.writeUint64 2 e.term else [])
    ++ (if e.index ≠ 0 then R.writeUint64 3 e.index else [])
    ++ (if e.data ≠ [] then R.writeBytes 4 e.data else [])
    ++ (if e.context ≠ [] then R.writeBytes 6 e.context else [])
    ++ R.writeUnknownFields e.unknownFields

end Entry

/-! ## `ConfState` -/

namespace ConfState

def new : ConfState R := {}

def field : ℕ → Option (R.Arm (ConfState R))
  | 1 => some (R.uint64sArm nodes fun nodes cs => { cs with nodes })
  | 2 => some (R.uint64sArm learners fun learners cs => { cs with learners })
  | _ => none

def record : Record R (ConfState R) where
  new := new
  field := field
  Nameless _ _ := False
  unknownFields := unknownFields
  setUnknownFields unknownFields cs := { cs with unknownFields }
  unknownFields_new := rfl
  unknownFields_set _ _ := rfl
  set_set _ _ _ := rfl
  set_unknownFields _ := rfl

def mergeFrom (cs : ConfState R) : Reader R.Input R.Error (ConfState R) := record.mergeFrom cs

def computeSize (cs : ConfState R) : UInt32 :=
  (cs.nodes.map fun value => R.valueSize 1 value .Varint).sum
    + (cs.learners.map fun value => R.valueSize 2 value .Varint).sum
    + R.unknownFieldsSize cs.unknownFields

def writeTo (cs : ConfState R) : Bytes :=
  cs.nodes.flatMap (R.writeUint64 1)
    ++ cs.learners.flatMap (R.writeUint64 2)
    ++ R.writeUnknownFields cs.unknownFields

end ConfState

/-! ## `SnapshotMetadata` -/

namespace SnapshotMetadata

def new : SnapshotMetadata R := {}

def field : ℕ → Option (R.Arm (SnapshotMetadata R))
  | 1 => some (R.messageArm .new ConfState.mergeFrom confState
      fun confState sm => { sm with confState })
  | 2 => some (R.uint64Arm fun index sm => { sm with index })
  | 3 => some (R.uint64Arm fun term sm => { sm with term })
  | _ => none

def record : Record R (SnapshotMetadata R) where
  new := new
  field := field
  Nameless _ _ := False
  unknownFields := unknownFields
  setUnknownFields unknownFields sm := { sm with unknownFields }
  unknownFields_new := rfl
  unknownFields_set _ _ := rfl
  set_set _ _ _ := rfl
  set_unknownFields _ := rfl

def mergeFrom (sm : SnapshotMetadata R) : Reader R.Input R.Error (SnapshotMetadata R) :=
  record.mergeFrom sm

def computeSize (sm : SnapshotMetadata R) : UInt32 :=
  (sm.confState.elim 0 fun v =>
      let len := v.computeSize
      1 + R.computeRawVarint32Size len + len)
    + (if sm.index ≠ 0 then R.valueSize 2 sm.index .Varint else 0)
    + (if sm.term ≠ 0 then R.valueSize 3 sm.term .Varint else 0)
    + R.unknownFieldsSize sm.unknownFields

def writeTo (sm : SnapshotMetadata R) : Bytes :=
  (sm.confState.elim [] fun v => R.writeMessage 1 v.computeSize v.writeTo)
    ++ (if sm.index ≠ 0 then R.writeUint64 2 sm.index else [])
    ++ (if sm.term ≠ 0 then R.writeUint64 3 sm.term else [])
    ++ R.writeUnknownFields sm.unknownFields

end SnapshotMetadata

/-! ## `Snapshot` -/

namespace Snapshot

def new : Snapshot R := {}

def field : ℕ → Option (R.Arm (Snapshot R))
  | 1 => some (R.bytesArm data fun data s => { s with data })
  | 2 => some (R.messageArm .new SnapshotMetadata.mergeFrom metadata
      fun metadata s => { s with metadata })
  | _ => none

def record : Record R (Snapshot R) where
  new := new
  field := field
  Nameless _ _ := False
  unknownFields := unknownFields
  setUnknownFields unknownFields s := { s with unknownFields }
  unknownFields_new := rfl
  unknownFields_set _ _ := rfl
  set_set _ _ _ := rfl
  set_unknownFields _ := rfl

def mergeFrom (s : Snapshot R) : Reader R.Input R.Error (Snapshot R) := record.mergeFrom s

def computeSize (s : Snapshot R) : UInt32 :=
  (if s.data ≠ [] then R.bytesSize 1 s.data else 0)
    + (s.metadata.elim 0 fun v =>
      let len := v.computeSize
      1 + R.computeRawVarint32Size len + len)
    + R.unknownFieldsSize s.unknownFields

def writeTo (s : Snapshot R) : Bytes :=
  (if s.data ≠ [] then R.writeBytes 1 s.data else [])
    ++ (s.metadata.elim [] fun v => R.writeMessage 2 v.computeSize v.writeTo)
    ++ R.writeUnknownFields s.unknownFields

end Snapshot

/-! ## `Message` -/

namespace Message

def new : Message R := {}

def field : ℕ → Option (R.Arm (Message R))
  | 1 => some (R.enumArm MessageType.fromI32 1 msgType unknownFields
      fun msgType unknownFields m => { m with msgType, unknownFields })
  | 2 => some (R.uint64Arm fun to_ m => { m with to_ })
  | 3 => some (R.uint64Arm fun from_ m => { m with from_ })
  | 4 => some (R.uint64Arm fun term m => { m with term })
  | 5 => some (R.uint64Arm fun logTerm m => { m with logTerm })
  | 6 => some (R.uint64Arm fun index m => { m with index })
  | 7 => some (R.messagesArm .new Entry.mergeFrom entries fun entries m => { m with entries })
  | 8 => some (R.uint64Arm fun commit m => { m with commit })
  | 9 => some (R.messageArm .new Snapshot.mergeFrom snapshot
      fun snapshot m => { m with snapshot })
  | 10 => some (R.boolArm fun reject m => { m with reject })
  | 11 => some (R.uint64Arm fun rejectHint m => { m with rejectHint })
  | 12 => some (R.bytesArm context fun context m => { m with context })
  | _ => none

def record : Record R (Message R) where
  new := new
  field := field
  Nameless n i := n = 1 ∧ MessageType.fromI32 i = none
  unknownFields := unknownFields
  setUnknownFields unknownFields m := { m with unknownFields }
  unknownFields_new := rfl
  unknownFields_set _ _ := rfl
  set_set _ _ _ := rfl
  set_unknownFields _ := rfl

def mergeFrom (m : Message R) : Reader R.Input R.Error (Message R) := record.mergeFrom m

def computeSize (m : Message R) : UInt32 :=
  (if m.msgType ≠ .MsgHup then R.enumSize 1 m.msgType.value else 0)
    + (if m.to_ ≠ 0 then R.valueSize 2 m.to_ .Varint else 0)
    + (if m.from_ ≠ 0 then R.valueSize 3 m.from_ .Varint else 0)
    + (if m.term ≠ 0 then R.valueSize 4 m.term .Varint else 0)
    + (if m.logTerm ≠ 0 then R.valueSize 5 m.logTerm .Varint else 0)
    + (if m.index ≠ 0 then R.valueSize 6 m.index .Varint else 0)
    + (m.entries.map fun value =>
      let len := value.computeSize
      1 + R.computeRawVarint32Size len + len).sum
    + (if m.commit ≠ 0 then R.valueSize 8 m.commit .Varint else 0)
    + (m.snapshot.elim 0 fun v =>
      let len := v.computeSize
      1 + R.computeRawVarint32Size len + len)
    + (if m.reject ≠ false then 2 else 0)
    + (if m.rejectHint ≠ 0 then R.valueSize 11 m.rejectHint .Varint else 0)
    + (if m.context ≠ [] then R.bytesSize 12 m.context else 0)
    + R.unknownFieldsSize m.unknownFields

def writeTo (m : Message R) : Bytes :=
  (if m.msgType ≠ .MsgHup then R.writeEnum 1 m.msgType.value else [])
    ++ (if m.to_ ≠ 0 then R.writeUint64 2 m.to_ else [])
    ++ (if m.from_ ≠ 0 then R.writeUint64 3 m.from_ else [])
    ++ (if m.term ≠ 0 then R.writeUint64 4 m.term else [])
    ++ (if m.logTerm ≠ 0 then R.writeUint64 5 m.logTerm else [])
    ++ (if m.index ≠ 0 then R.writeUint64 6 m.index else [])
    ++ (m.entries.flatMap fun v => R.writeMessage 7 v.computeSize v.writeTo)
    ++ (if m.commit ≠ 0 then R.writeUint64 8 m.commit else [])
    ++ (m.snapshot.elim [] fun v => R.writeMessage 9 v.computeSize v.writeTo)
    ++ (if m.reject ≠ false then R.writeBool 10 m.reject else [])
    ++ (if m.rejectHint ≠ 0 then R.writeUint64 11 m.rejectHint else [])
    ++ (if m.context ≠ [] then R.writeBytes 12 m.context else [])
    ++ R.writeUnknownFields m.unknownFields

end Message

/-! ## `HardState` -/

namespace HardState

def new : HardState R := {}

def field : ℕ → Option (R.Arm (HardState R))
  | 1 => some (R.uint64Arm fun term hs => { hs with term })
  | 2 => some (R.uint64Arm fun vote hs => { hs with vote })
  | 3 => some (R.uint64Arm fun commit hs => { hs with commit })
  | _ => none

def record : Record R (HardState R) where
  new := new
  field := field
  Nameless _ _ := False
  unknownFields := unknownFields
  setUnknownFields unknownFields hs := { hs with unknownFields }
  unknownFields_new := rfl
  unknownFields_set _ _ := rfl
  set_set _ _ _ := rfl
  set_unknownFields _ := rfl

def mergeFrom (hs : HardState R) : Reader R.Input R.Error (HardState R) := record.mergeFrom hs

def computeSize (hs : HardState R) : UInt32 :=
  (if hs.term ≠ 0 then R.valueSize 1 hs.term .Varint else 0)
    + (if hs.vote ≠ 0 then R.valueSize 2 hs.vote .Varint else 0)
    + (if hs.commit ≠ 0 then R.valueSize 3 hs.commit .Varint else 0)
    + R.unknownFieldsSize hs.unknownFields

def writeTo (hs : HardState R) : Bytes :=
  (if hs.term ≠ 0 then R.writeUint64 1 hs.term else [])
    ++ (if hs.vote ≠ 0 then R.writeUint64 2 hs.vote else [])
    ++ (if hs.commit ≠ 0 then R.writeUint64 3 hs.commit else [])
    ++ R.writeUnknownFields hs.unknownFields

end HardState

end Eraftpb

end RsRaft
