import RsRaft.Codec
import RsRaft.Lib.Base128

/-!
# What is written is read

Each record on its own, those inside a message first. A record is well formed if none
of what it keeps unread is a field of its own; every record that was read is.

§1 well-formed records · §2 round trips · §3 what was read once · §4 messages.
-/

namespace RsRaft.Eraftpb

open Wire

variable {R : Runtime}

/-! ## §1  Well-formed records -/

/-- What is kept beside the fields is none of them. -/
def Entry.WellFormed (e : Entry R) : Prop := Unread Entry.record e.unknownFields

def ConfState.WellFormed (cs : ConfState R) : Prop := Unread ConfState.record cs.unknownFields

def SnapshotMetadata.Inside (sm : SnapshotMetadata R) : Prop :=
  ∀ cs, sm.confState = some cs → cs.WellFormed

def SnapshotMetadata.WellFormed (sm : SnapshotMetadata R) : Prop :=
  sm.Inside ∧ Unread SnapshotMetadata.record sm.unknownFields

def Snapshot.Inside (s : Snapshot R) : Prop := ∀ sm, s.metadata = some sm → sm.WellFormed

def Snapshot.WellFormed (s : Snapshot R) : Prop :=
  s.Inside ∧ Unread Snapshot.record s.unknownFields

def Message.Inside (m : Message R) : Prop :=
  (∀ e ∈ m.entries, e.WellFormed) ∧ ∀ s, m.snapshot = some s → s.WellFormed

def Message.WellFormed (m : Message R) : Prop :=
  m.Inside ∧ Unread Message.record m.unknownFields

def HardState.WellFormed (hs : HardState R) : Prop := Unread HardState.record hs.unknownFields

/-! ## §2  Round trips

Field by field in the order they are written, from the blank record to the written one. A
message needs three levels of nesting: snapshot, metadata, configuration. -/

section RoundTrip

variable (hR : Lawful R)

include hR

namespace Entry

variable {e : Entry R} (he : e.WellFormed) (hlen : e.writeTo.length < 2 ^ 32)

include he hlen

theorem size_writeTo : e.computeSize = UInt32.ofNat e.writeTo.length := by
  simp only [writeTo, List.length_append] at hlen
  have hdata := hR.length_le_writeBytes 4 e.data
  have hcontext := hR.length_le_writeBytes 6 e.context
  have hunknown := hR.unknownFieldsSize he.collected (by omega)
  replace hdata := hR.bytesSize (n := 4) (by decide) (show e.data.length < 2 ^ 32 by omega)
  replace hcontext :=
    hR.bytesSize (n := 6) (by decide) (show e.context.length < 2 ^ 32 by omega)
  simp only [computeSize, writeTo, ofNat_length_append, ofNat_length_ite,
    hR.enumSize (n := 1) (by decide), hR.valueSize (n := 2) (by decide),
    hR.valueSize (n := 3) (by decide), hdata, hcontext, hunknown]

theorem reads_writeTo (d : ℕ) : Reads record d e.writeTo new e := by
  simp only [writeTo, List.length_append] at hlen
  have hdata := hR.length_le_writeBytes 4 e.data
  have hcontext := hR.length_le_writeBytes 6 e.context
  have hentryType := hR.reads_enum (r := record) (d := d) (n := 1) (m := new) (by decide) rfl
    .EntryNormal e.entryType e.entryType.fromI32_value rfl
  have hterm := hR.reads_uint64 (r := record) (d := d) (n := 2)
    (m := ⟨e.entryType, 0, 0, [], [], R.noUnknown⟩) (by decide) rfl e.term rfl
  have hindex := hR.reads_uint64 (r := record) (d := d) (n := 3)
    (m := ⟨e.entryType, e.term, 0, [], [], R.noUnknown⟩) (by decide) rfl e.index rfl
  replace hdata := hR.reads_bytes (r := record) (d := d) (n := 4)
    (m := ⟨e.entryType, e.term, e.index, [], [], R.noUnknown⟩) (by decide) rfl
    (show e.data.length < 2 ^ 32 by omega) rfl
  replace hcontext := hR.reads_bytes (r := record) (d := d) (n := 6)
    (m := ⟨e.entryType, e.term, e.index, e.data, [], R.noUnknown⟩) (by decide) rfl
    (show e.context.length < 2 ^ 32 by omega) rfl
  have hunknown := hR.reads_unknown (d := d)
    (m := ⟨e.entryType, e.term, e.index, e.data, e.context, R.noUnknown⟩) he (by omega)
    (by
      rintro n i ⟨rfl, hi⟩
      exact hR.takes_nameless (r := record) rfl hi fun _ _ => rfl) rfl
  exact ((((hentryType.append hR hterm).append hR hindex).append hR hdata).append hR
    hcontext).append hR hunknown

theorem embeds (d : ℕ) : R.Embeds d new mergeFrom e.computeSize e.writeTo e :=
  (reads_writeTo hR he hlen d).embeds hR (size_writeTo hR he hlen) hlen

end Entry

namespace ConfState

variable {cs : ConfState R} (hcs : cs.WellFormed) (hlen : cs.writeTo.length < 2 ^ 32)

include hcs hlen

theorem size_writeTo : cs.computeSize = UInt32.ofNat cs.writeTo.length := by
  simp only [writeTo, List.length_append] at hlen
  have hnodes := ofNat_length_flatMap (l := cs.nodes)
    fun v _ => hR.valueSize (n := 1) (by decide) v
  have hlearners := ofNat_length_flatMap (l := cs.learners)
    fun v _ => hR.valueSize (n := 2) (by decide) v
  have hunknown := hR.unknownFieldsSize hcs.collected (by omega)
  simp only [computeSize, writeTo, ofNat_length_append, hnodes, hlearners, hunknown]

theorem reads_writeTo : Reads record 0 cs.writeTo new cs := by
  simp only [writeTo, List.length_append] at hlen
  have hnodes := hR.reads_uint64s (r := record) (d := 0) (n := 1) (m := new) (by decide) rfl
    cs.nodes (fun _ => rfl) (fun _ _ => rfl) rfl
  have hlearners := hR.reads_uint64s (r := record) (d := 0) (n := 2)
    (m := ⟨cs.nodes, [], R.noUnknown⟩) (by decide) rfl cs.learners (fun _ => rfl)
    (fun _ _ => rfl) rfl
  have hunknown := hR.reads_unknown (d := 0) (m := ⟨cs.nodes, cs.learners, R.noUnknown⟩) hcs
    (by omega) (fun _ _ h => h.elim) rfl
  exact (hnodes.append hR hlearners).append hR hunknown

theorem embeds : R.Embeds 0 new mergeFrom cs.computeSize cs.writeTo cs :=
  (reads_writeTo hR hcs hlen).embeds hR (size_writeTo hR hcs hlen) hlen

end ConfState

namespace SnapshotMetadata

variable {sm : SnapshotMetadata R} (hsm : sm.WellFormed) (hlen : sm.writeTo.length < 2 ^ 32)

include hsm hlen

theorem embeds_confState (cs : ConfState R) (hcs : sm.confState = some cs) :
    R.Embeds 0 .new ConfState.mergeFrom cs.computeSize cs.writeTo cs := by
  have hle := length_le_optional (R := R) ConfState.computeSize ConfState.writeTo 1 hcs
  simp only [writeTo, List.length_append] at hlen
  exact cs.embeds hR (hsm.1 cs hcs) (by omega)

theorem size_writeTo : sm.computeSize = UInt32.ofNat sm.writeTo.length := by
  have hconfState := hR.size_optional (n := 1) (by decide) (by decide) fun cs hcs =>
    (embeds_confState hR hsm hlen cs hcs).size_eq
  simp only [writeTo, List.length_append] at hlen
  have hunknown := hR.unknownFieldsSize hsm.2.collected (by omega)
  simp only [computeSize, writeTo, ofNat_length_append, ofNat_length_ite, hconfState,
    hR.valueSize (n := 2) (by decide), hR.valueSize (n := 3) (by decide), hunknown]

theorem reads_writeTo : Reads record 1 sm.writeTo new sm := by
  have hconfState := hR.reads_message (r := record) (n := 1) (m := new) (by decide) rfl
    (embeds_confState hR hsm hlen) rfl
  simp only [writeTo, List.length_append] at hlen
  have hindex := hR.reads_uint64 (r := record) (d := 1) (n := 2)
    (m := ⟨sm.confState, 0, 0, R.noUnknown⟩) (by decide) rfl sm.index rfl
  have hterm := hR.reads_uint64 (r := record) (d := 1) (n := 3)
    (m := ⟨sm.confState, sm.index, 0, R.noUnknown⟩) (by decide) rfl sm.term rfl
  have hunknown := hR.reads_unknown (d := 1) (m := ⟨sm.confState, sm.index, sm.term, R.noUnknown⟩)
    hsm.2 (by omega) (fun _ _ h => h.elim) rfl
  exact ((hconfState.append hR hindex).append hR hterm).append hR hunknown

theorem embeds : R.Embeds 1 new mergeFrom sm.computeSize sm.writeTo sm :=
  (reads_writeTo hR hsm hlen).embeds hR (size_writeTo hR hsm hlen) hlen

end SnapshotMetadata

namespace Snapshot

variable {s : Snapshot R} (hs : s.WellFormed) (hlen : s.writeTo.length < 2 ^ 32)

include hs hlen

theorem embeds_metadata (sm : SnapshotMetadata R) (hsm : s.metadata = some sm) :
    R.Embeds 1 .new SnapshotMetadata.mergeFrom sm.computeSize sm.writeTo sm := by
  have hle := length_le_optional (R := R) SnapshotMetadata.computeSize
    SnapshotMetadata.writeTo 2 hsm
  simp only [writeTo, List.length_append] at hlen
  exact sm.embeds hR (hs.1 sm hsm) (by omega)

theorem size_writeTo : s.computeSize = UInt32.ofNat s.writeTo.length := by
  have hmetadata := hR.size_optional (n := 2) (by decide) (by decide) fun sm hsm =>
    (embeds_metadata hR hs hlen sm hsm).size_eq
  simp only [writeTo, List.length_append] at hlen
  have hdata := hR.length_le_writeBytes 1 s.data
  have hunknown := hR.unknownFieldsSize hs.2.collected (by omega)
  replace hdata := hR.bytesSize (n := 1) (by decide) (show s.data.length < 2 ^ 32 by omega)
  simp only [computeSize, writeTo, ofNat_length_append, ofNat_length_ite, hdata, hmetadata,
    hunknown]

theorem reads_writeTo : Reads record 2 s.writeTo new s := by
  have hmetadata := hR.reads_message (r := record) (n := 2)
    (m := ⟨s.data, none, R.noUnknown⟩) (by decide) rfl (embeds_metadata hR hs hlen) rfl
  simp only [writeTo, List.length_append] at hlen
  have hdata := hR.length_le_writeBytes 1 s.data
  replace hdata := hR.reads_bytes (r := record) (d := 2) (n := 1) (m := new) (by decide) rfl
    (show s.data.length < 2 ^ 32 by omega) rfl
  have hunknown := hR.reads_unknown (d := 2) (m := ⟨s.data, s.metadata, R.noUnknown⟩) hs.2
    (by omega) (fun _ _ h => h.elim) rfl
  exact (hdata.append hR hmetadata).append hR hunknown

theorem embeds : R.Embeds 2 new mergeFrom s.computeSize s.writeTo s :=
  (reads_writeTo hR hs hlen).embeds hR (size_writeTo hR hs hlen) hlen

end Snapshot

namespace Message

variable {m : Message R} (hm : m.WellFormed) (hlen : m.writeTo.length < 2 ^ 32)

include hm hlen

theorem embeds_entry (e : Entry R) (he : e ∈ m.entries) :
    R.Embeds 2 .new Entry.mergeFrom e.computeSize e.writeTo e := by
  have hle := length_le_repeated (R := R) Entry.computeSize Entry.writeTo 7 he
  simp only [writeTo, List.length_append] at hlen
  exact e.embeds hR (hm.1.1 e he) (by omega) 2

theorem embeds_snapshot (s : Snapshot R) (hs : m.snapshot = some s) :
    R.Embeds 2 .new Snapshot.mergeFrom s.computeSize s.writeTo s := by
  have hle := length_le_optional (R := R) Snapshot.computeSize Snapshot.writeTo 9 hs
  simp only [writeTo, List.length_append] at hlen
  exact s.embeds hR (hm.1.2 s hs) (by omega)

theorem size_writeTo : m.computeSize = UInt32.ofNat m.writeTo.length := by
  have hentries := ofNat_length_flatMap (l := m.entries) fun e he =>
    (hR.size_message (n := 7) (by decide) (by decide)
      (embeds_entry hR hm hlen e he).size_eq).symm
  have hsnapshot := hR.size_optional (n := 9) (by decide) (by decide) fun s hs =>
    (embeds_snapshot hR hm hlen s hs).size_eq
  simp only [writeTo, List.length_append] at hlen
  have hcontext := hR.length_le_writeBytes 12 m.context
  have hunknown := hR.unknownFieldsSize hm.2.collected (by omega)
  replace hcontext :=
    hR.bytesSize (n := 12) (by decide) (show m.context.length < 2 ^ 32 by omega)
  simp only [computeSize, writeTo, ofNat_length_append, ofNat_length_ite,
    hR.enumSize (n := 1) (by decide), hR.valueSize (n := 2) (by decide),
    hR.valueSize (n := 3) (by decide), hR.valueSize (n := 4) (by decide),
    hR.valueSize (n := 5) (by decide), hR.valueSize (n := 6) (by decide), hentries,
    hR.valueSize (n := 8) (by decide), hsnapshot,
    hR.size_bool (n := 10) (by decide) (by decide),
    hR.valueSize (n := 11) (by decide), hcontext, hunknown]

theorem reads_writeTo : Reads record 3 m.writeTo new m := by
  have hentries := hR.reads_messages (r := record) (n := 7)
    (m := ⟨m.msgType, m.to_, m.from_, m.term, m.logTerm, m.index, [], 0, none, false, 0, [],
      R.noUnknown⟩) (by decide) rfl (embeds_entry hR hm hlen) (fun _ => rfl)
    (fun _ _ => rfl) rfl
  have hsnapshot := hR.reads_message (r := record) (n := 9)
    (m := ⟨m.msgType, m.to_, m.from_, m.term, m.logTerm, m.index, m.entries, m.commit, none,
      false, 0, [], R.noUnknown⟩) (by decide) rfl (embeds_snapshot hR hm hlen) rfl
  simp only [writeTo, List.length_append] at hlen
  have hcontext := hR.length_le_writeBytes 12 m.context
  have hmsgType := hR.reads_enum (r := record) (d := 3) (n := 1) (m := new) (by decide) rfl .MsgHup
    m.msgType m.msgType.fromI32_value rfl
  have hto := hR.reads_uint64 (r := record) (d := 3) (n := 2)
    (m := ⟨m.msgType, 0, 0, 0, 0, 0, [], 0, none, false, 0, [], R.noUnknown⟩)
    (by decide) rfl m.to_ rfl
  have hfrom := hR.reads_uint64 (r := record) (d := 3) (n := 3)
    (m := ⟨m.msgType, m.to_, 0, 0, 0, 0, [], 0, none, false, 0, [], R.noUnknown⟩)
    (by decide) rfl m.from_ rfl
  have hterm := hR.reads_uint64 (r := record) (d := 3) (n := 4)
    (m := ⟨m.msgType, m.to_, m.from_, 0, 0, 0, [], 0, none, false, 0, [], R.noUnknown⟩)
    (by decide) rfl m.term rfl
  have hlogTerm := hR.reads_uint64 (r := record) (d := 3) (n := 5)
    (m := ⟨m.msgType, m.to_, m.from_, m.term, 0, 0, [], 0, none, false, 0, [],
      R.noUnknown⟩) (by decide) rfl m.logTerm rfl
  have hindex := hR.reads_uint64 (r := record) (d := 3) (n := 6)
    (m := ⟨m.msgType, m.to_, m.from_, m.term, m.logTerm, 0, [], 0, none, false, 0, [],
      R.noUnknown⟩) (by decide) rfl m.index rfl
  have hcommit := hR.reads_uint64 (r := record) (d := 3) (n := 8)
    (m := ⟨m.msgType, m.to_, m.from_, m.term, m.logTerm, m.index, m.entries, 0, none, false,
      0, [], R.noUnknown⟩) (by decide) rfl m.commit rfl
  have hreject := hR.reads_bool (r := record) (d := 3) (n := 10)
    (m := ⟨m.msgType, m.to_, m.from_, m.term, m.logTerm, m.index, m.entries, m.commit,
      m.snapshot, false, 0, [], R.noUnknown⟩) (by decide) rfl m.reject rfl
  have hrejectHint := hR.reads_uint64 (r := record) (d := 3) (n := 11)
    (m := ⟨m.msgType, m.to_, m.from_, m.term, m.logTerm, m.index, m.entries, m.commit,
      m.snapshot, m.reject, 0, [], R.noUnknown⟩) (by decide) rfl m.rejectHint rfl
  replace hcontext := hR.reads_bytes (r := record) (d := 3) (n := 12)
    (m := ⟨m.msgType, m.to_, m.from_, m.term, m.logTerm, m.index, m.entries, m.commit,
      m.snapshot, m.reject, m.rejectHint, [], R.noUnknown⟩) (by decide) rfl
    (show m.context.length < 2 ^ 32 by omega) rfl
  have hunknown := hR.reads_unknown (d := 3)
    (m := ⟨m.msgType, m.to_, m.from_, m.term, m.logTerm, m.index, m.entries, m.commit,
      m.snapshot, m.reject, m.rejectHint, m.context, R.noUnknown⟩) hm.2 (by omega)
    (by
      rintro n i ⟨rfl, hi⟩
      exact hR.takes_nameless (r := record) rfl hi fun _ _ => rfl) rfl
  exact (((((((((((hmsgType.append hR hto).append hR hfrom).append hR hterm).append hR
    hlogTerm).append hR hindex).append hR hentries).append hR hcommit).append hR
    hsnapshot).append hR hreject).append hR hrejectHint).append hR hcontext).append hR hunknown

end Message

namespace HardState

variable {hs : HardState R} (hwf : hs.WellFormed) (hlen : hs.writeTo.length < 2 ^ 32)

include hwf hlen

theorem size_writeTo : hs.computeSize = UInt32.ofNat hs.writeTo.length := by
  simp only [writeTo, List.length_append] at hlen
  have hunknown := hR.unknownFieldsSize hwf.collected (by omega)
  simp only [computeSize, writeTo, ofNat_length_append, ofNat_length_ite,
    hR.valueSize (n := 1) (by decide), hR.valueSize (n := 2) (by decide),
    hR.valueSize (n := 3) (by decide), hunknown]

theorem reads_writeTo : Reads record 0 hs.writeTo new hs := by
  simp only [writeTo, List.length_append] at hlen
  have hterm := hR.reads_uint64 (r := record) (d := 0) (n := 1) (m := new) (by decide) rfl
    hs.term rfl
  have hvote := hR.reads_uint64 (r := record) (d := 0) (n := 2)
    (m := ⟨hs.term, 0, 0, R.noUnknown⟩) (by decide) rfl hs.vote rfl
  have hcommit := hR.reads_uint64 (r := record) (d := 0) (n := 3)
    (m := ⟨hs.term, hs.vote, 0, R.noUnknown⟩) (by decide) rfl hs.commit rfl
  have hunknown := hR.reads_unknown (d := 0) (m := ⟨hs.term, hs.vote, hs.commit, R.noUnknown⟩) hwf
    (by omega) (fun _ _ h => h.elim) rfl
  exact ((hterm.append hR hvote).append hR hcommit).append hR hunknown

end HardState

end RoundTrip

/-! ## §3  What was read once

A message inside was read by its own reader; the other fields promise nothing. -/

section Accepted

variable (hR : Lawful R)

include hR

namespace Entry

theorem sound : (record (R := R)).Sound fun _ => True where
  new := trivial
  setUnknown _ _ _ := trivial
  arms n arm harm := by
    change field n = some arm at harm
    unfold field at harm
    split at harm
    all_goals cases harm
    · exact hR.keeps_enum (fun _ _ _ _ => trivial) (fun _ _ _ => rfl) fun i hi => ⟨rfl, hi⟩
    · exact Record.keeps_uint64 (fun _ _ _ => trivial) fun _ _ => rfl
    · exact Record.keeps_uint64 (fun _ _ _ => trivial) fun _ _ => rfl
    · exact Record.keeps_bytes (fun _ _ _ => trivial) fun _ _ => rfl
    · exact Record.keeps_bytes (fun _ _ _ => trivial) fun _ _ => rfl

theorem wellFormed_of_mergeFrom (is : R.Input) (e : Entry R) (is' : R.Input)
    (h : new.mergeFrom is = .ok (e, is')) : e.WellFormed :=
  ((sound hR).mergeFrom hR h).2

end Entry

namespace ConfState

omit hR in
theorem sound : (record (R := R)).Sound fun _ => True where
  new := trivial
  setUnknown _ _ _ := trivial
  arms n arm harm := by
    change field n = some arm at harm
    unfold field at harm
    split at harm
    all_goals cases harm
    all_goals exact Record.keeps_uint64s (fun _ _ _ => trivial) fun _ _ => rfl

theorem wellFormed_of_mergeFrom (is : R.Input) (cs : ConfState R) (is' : R.Input)
    (h : new.mergeFrom is = .ok (cs, is')) : cs.WellFormed :=
  (sound.mergeFrom hR h).2

end ConfState

namespace SnapshotMetadata

theorem sound : (record (R := R)).Sound Inside where
  new := by rintro _ ⟨⟩
  setUnknown _ _ h := h
  arms n arm harm := by
    change field n = some arm at harm
    unfold field at harm
    split at harm
    all_goals cases harm
    · refine hR.keeps_message (ConfState.wellFormed_of_mergeFrom hR) ?_ fun _ _ => rfl
      rintro cs sm hcs - _ ⟨⟩
      exact hcs
    all_goals exact Record.keeps_uint64 (fun _ _ h => h) fun _ _ => rfl

theorem wellFormed_of_mergeFrom (is : R.Input) (sm : SnapshotMetadata R) (is' : R.Input)
    (h : new.mergeFrom is = .ok (sm, is')) : sm.WellFormed :=
  (sound hR).mergeFrom hR h

end SnapshotMetadata

namespace Snapshot

theorem sound : (record (R := R)).Sound Inside where
  new := by rintro _ ⟨⟩
  setUnknown _ _ h := h
  arms n arm harm := by
    change field n = some arm at harm
    unfold field at harm
    split at harm
    all_goals cases harm
    · exact Record.keeps_bytes (fun _ _ h => h) fun _ _ => rfl
    · refine hR.keeps_message (SnapshotMetadata.wellFormed_of_mergeFrom hR) ?_ fun _ _ => rfl
      rintro sm s hsm - _ ⟨⟩
      exact hsm

theorem wellFormed_of_mergeFrom (is : R.Input) (s : Snapshot R) (is' : R.Input)
    (h : new.mergeFrom is = .ok (s, is')) : s.WellFormed :=
  (sound hR).mergeFrom hR h

end Snapshot

namespace Message

theorem sound : (record (R := R)).Sound Inside where
  new := by
    constructor
    · rintro _ ⟨⟩
    · rintro _ ⟨⟩
  setUnknown _ _ h := h
  arms n arm harm := by
    change field n = some arm at harm
    unfold field at harm
    split at harm
    all_goals cases harm
    case h_1 =>
      exact hR.keeps_enum (fun _ _ _ h => h) (fun _ _ _ => rfl) fun i hi => ⟨rfl, hi⟩
    case h_7 =>
      refine hR.keeps_messages (Entry.wellFormed_of_mergeFrom hR) ?_ fun _ _ => rfl
      intro e m he hm
      refine ⟨?_, hm.2⟩
      intro e' he'
      rcases List.mem_append.mp he' with hold | hnew
      · exact hm.1 e' hold
      · rwa [List.mem_singleton.mp hnew]
    case h_9 =>
      refine hR.keeps_message (Snapshot.wellFormed_of_mergeFrom hR) ?_ fun _ _ => rfl
      intro s m hs hm
      refine ⟨hm.1, ?_⟩
      rintro _ ⟨⟩
      exact hs
    case h_10 => exact Record.keeps_bool (fun _ _ h => h) fun _ _ => rfl
    case h_12 => exact Record.keeps_bytes (fun _ _ h => h) fun _ _ => rfl
    all_goals exact Record.keeps_uint64 (fun _ _ h => h) fun _ _ => rfl

theorem wellFormed_of_mergeFrom (is : R.Input) (m : Message R) (is' : R.Input)
    (h : new.mergeFrom is = .ok (m, is')) : m.WellFormed :=
  (sound hR).mergeFrom hR h

end Message

namespace HardState

omit hR in
theorem sound : (record (R := R)).Sound fun _ => True where
  new := trivial
  setUnknown _ _ _ := trivial
  arms n arm harm := by
    change field n = some arm at harm
    unfold field at harm
    split at harm
    all_goals cases harm
    all_goals exact Record.keeps_uint64 (fun _ _ _ => trivial) fun _ _ => rfl

theorem wellFormed_of_mergeFrom (is : R.Input) (hs : HardState R) (is' : R.Input)
    (h : new.mergeFrom is = .ok (hs, is')) : hs.WellFormed :=
  (sound.mergeFrom hR h).2

/-- A hard state that was read and is written is read as the same again. -/
theorem read_back {is is' : R.Input} {hs : HardState R} (h : new.mergeFrom is = .ok (hs, is'))
    (hlen : hs.writeTo.length < 2 ^ 32) :
    hs.computeSize.toNat = hs.writeTo.length ∧
      (new.mergeFrom (R.fromBytes hs.writeTo)).map Prod.fst = .ok hs := by
  have hwf := wellFormed_of_mergeFrom hR is hs is' h
  constructor
  · rw [size_writeTo hR hwf hlen, UInt32.toNat_ofNat_of_lt' hlen]
  · exact (reads_writeTo hR hwf hlen).fromBytes hR (by decide)

end HardState

end Accepted

/-! ## §4  Messages -/

/-- The size computed for a message is that of its bytes, and they are read as the
message that was written: its entries, its snapshot, and what the writer had itself
only read and not understood. -/
theorem Message.mergeFrom_writeTo (hR : Lawful R) {m : Message R} (hm : m.WellFormed)
    (hlen : m.writeTo.length < 2 ^ 32) :
    m.computeSize.toNat = m.writeTo.length ∧
      (new.mergeFrom (R.fromBytes m.writeTo)).map Prod.fst = .ok m := by
  constructor
  · rw [size_writeTo hR hm hlen, UInt32.toNat_ofNat_of_lt' hlen]
  · exact (reads_writeTo hR hm hlen).fromBytes hR (by decide)

/-- Two entries and a snapshot, beside a field `13` and a type `25` from a later version. -/
theorem Message.mergeFrom_writeTo_laterVersion :
    let R := Base128.runtime
    let m : Message R :=
      { msgType := .MsgAppend
        to_ := 2
        from_ := 1
        term := 300
        entries := [{ term := 299, index := 7 }, { term := 300, index := 8, data := [1, 2, 3] }]
        snapshot := some { data := [9], metadata := some { confState := some { nodes := [1] } } }
        reject := true
        unknownFields := [(1, .Varint 25), (13, .LengthDelimited [0, 255])] }
    m.computeSize.toNat = m.writeTo.length ∧
      (new.mergeFrom (R.fromBytes m.writeTo)).map Prod.fst = .ok m := by
  intro R m
  have hlen : m.writeTo.length < 2 ^ 32 := by decide +kernel
  have hR := Base128.lawful
  refine mergeFrom_writeTo hR ⟨⟨?_, ?_⟩, ?_⟩ hlen
  · refine List.forall_mem_cons.mpr ⟨hR.unread_noUnknown, ?_⟩
    exact List.forall_mem_singleton.mpr hR.unread_noUnknown
  · rintro _ ⟨⟩
    refine ⟨?_, hR.unread_noUnknown⟩
    rintro _ ⟨⟩
    refine ⟨?_, hR.unread_noUnknown⟩
    rintro _ ⟨⟩
    exact hR.unread_noUnknown
  · refine ⟨(Runtime.Collected.none.add 1 (.Varint 25)).add 13 (.LengthDelimited [0, 255]), ?_⟩
    refine List.forall_mem_cons.mpr ⟨⟨by decide, .inr ⟨25, rfl, rfl, rfl⟩⟩, ?_⟩
    exact List.forall_mem_singleton.mpr ⟨by decide, .inl rfl⟩

/-- Whatever input a message was read from, it can be passed on: what is written for it
is read as the same message again. -/
theorem Message.mergeFrom_passedOn (hR : Lawful R) {is is' : R.Input} {m : Message R}
    (h : new.mergeFrom is = .ok (m, is')) (hlen : m.writeTo.length < 2 ^ 32) :
    (new.mergeFrom (R.fromBytes m.writeTo)).map Prod.fst = .ok m :=
  (reads_writeTo hR (wellFormed_of_mergeFrom hR is m is' h) hlen).fromBytes hR (by decide)

/-- The fields are not in their order, the type comes twice, and once has no name; the entry
at the end announces more bytes than there are. -/
theorem Message.mergeFrom_passedOn_outOfOrder :
    let R := Base128.runtime
    ∃ (m : Message R) (is' : R.Input),
      new.mergeFrom (R.fromBytes [16, 2, 8, 25, 104, 5, 8, 3, 58, 5, 16, 3]) = .ok (m, is') ∧
        (new.mergeFrom (R.fromBytes m.writeTo)).map Prod.fst = .ok m := by
  intro R
  have hread : ((new : Message R).mergeFrom
      (R.fromBytes [16, 2, 8, 25, 104, 5, 8, 3, 58, 5, 16, 3])).toOption.elim false
        (fun x => decide (x.1.writeTo.length < 2 ^ 32)) = true := by decide +kernel
  cases hm : (new : Message R).mergeFrom
      (R.fromBytes [16, 2, 8, 25, 104, 5, 8, 3, 58, 5, 16, 3]) with
  | error e =>
      rw [hm] at hread
      cases hread
  | ok x =>
      rw [hm] at hread
      simp only [Except.toOption, Option.elim, decide_eq_true_eq] at hread
      exact ⟨x.1, x.2, rfl, mergeFrom_passedOn Base128.lawful hm hread⟩

end RsRaft.Eraftpb
