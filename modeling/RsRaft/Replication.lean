import RsRaft.InflightWindow
import RsRaft.LogRun
import RsRaft.LogicalLog
import RsRaft.Sending

/-!
# The stream of entries to one peer

`send_append` reads a batch from `next_idx` on, as long as the size limit lets
it, moves `next_idx` behind the batch and notes its last index in the window of
messages in flight. While the log grows between the calls, the messages carry
it without a gap or a repetition: every message begins where the one before
ended.

The messages are those handed to `send`. What `send` does with one is open: it
may queue it, drop it or panic.

§1 the calls · §2 what a stream carries · §3 one call · §4 a run · §5 probing.
-/

namespace RsRaft

open PlainLog Call RaftLog

/-! ## §1  The calls -/

inductive StreamCall where
  | sendAppend
  | appendEntry (ents : List Entry)
  | freeTo (to_ : ℕ)
  | freeFirstOne
deriving DecidableEq, Repr

/-- The call frees part of the window. -/
def StreamCall.Frees : StreamCall → Prop
  | freeTo _ => True
  | freeFirstOne => True
  | _ => False

section

variable [ProtoMessage Entry]

/-- A `send` that hands the message on and leaves the log alone. -/
structure Hands (send : Message → Call Panic Event (Raft MemStorage) Unit) : Prop where
  trace : ∀ m r, (send m r).trace = [.handed m]
  log : ∀ m r, (send m r).state.raftLog = r.raftLog

variable {send : Message → Call Panic Event (Raft MemStorage) Unit} {to_ : ℕ}
  {r r' : Raft MemStorage} {pr pr' : Progress} {L L' : PlainLog Entry ℕ} {m : Message}
  {ms ms' : List Message} {i j k : ℕ}

namespace StreamCall

def run (send : Message → Call Panic Event (Raft MemStorage) Unit) (to_ : ℕ) (pr : Progress) :
    StreamCall → Call Panic Event (Raft MemStorage) Progress
  | sendAppend => Raft.sendAppendVia send to_ pr
  | appendEntry ents => do
      Raft.appendEntry ents
      pure pr
  | freeTo to_ => do
      let ins ← Call.lift (pr.ins.freeTo to_)
      pure { pr with ins := ins }
  | freeFirstOne => do
      let ins ← Call.lift pr.ins.freeFirstOne
      pure { pr with ins := ins }

/-- A run of calls, with the progress of the peer handed on. -/
def runs (send : Message → Call Panic Event (Raft MemStorage) Unit) (to_ : ℕ)
    (cs : List StreamCall) (pr : Progress) : Call Panic Event (Raft MemStorage) Progress :=
  cs.foldlM (run send to_) pr

end StreamCall

omit [ProtoMessage Entry] in
/-- The code's own `send` hands its message on, whether it panics or not. -/
theorem hands_send : Hands Raft.send := by
  have hrun : ∀ m (r : Raft MemStorage),
      (Raft.send m r).trace = [.handed m] ∧ (Raft.send m r).state.raftLog = r.raftLog := by
    intro m r
    by_cases hterm : m.term = 0
    · rw [Raft.send_of_term_eq_zero hterm]
      exact ⟨rfl, rfl⟩
    · by_cases hvote : Raft.isVoteMessage m.msgType = true
      · rw [Raft.send_of_vote hvote hterm]
        exact ⟨rfl, rfl⟩
      · unfold Raft.send
        simp only [emit_bind_run, read_bind_run, if_neg hvote, if_neg hterm, modify_run]
        exact ⟨rfl, rfl⟩
  exact ⟨fun m r => (hrun m r).1, fun m r => (hrun m r).2⟩

/-! ## §2  What a stream carries -/

/-- The message carries entries of `L` from index `i` on. -/
structure Carries (L : PlainLog Entry ℕ) (i : ℕ) (m : Message) : Prop where
  index : m.index + 1 = i
  logTerm : L.stampAt m.index = some m.logTerm
  entries : m.entries = L.segment m.index m.entries.length
  within : m.index + m.entries.length ≤ L.lastIndex

/-- The messages carry the entries of `L` from index `i` to before `j`, each one from where
the one before it ended. -/
def Streams (L : PlainLog Entry ℕ) : ℕ → List Message → ℕ → Prop
  | i, [], j => i = j
  | i, m :: ms, j => Carries L i m ∧ Streams L (i + m.entries.length) ms j

omit [ProtoMessage Entry] in
theorem Carries.base_le (h : Carries L i m) : L.base ≤ m.index := (bounds_of_stampAt h.logTerm).1

omit [ProtoMessage Entry] in
/-- A longer log carries what the shorter one did. -/
theorem Carries.mono (h : Carries L i m) (hL : L.Continues L') : Carries L' i m := by
  have hle := (bounds_of_stampAt h.logTerm).2
  refine ⟨h.index, ?_, ?_, Nat.le_trans h.within hL.lastIndex_le⟩
  · rw [hL.stampAt_eq hle]
    exact h.logTerm
  · rw [hL.segment_eq h.base_le h.within]
    exact h.entries

namespace Streams

omit [ProtoMessage Entry]

theorem mono (h : Streams L i ms j) (hL : L.Continues L') : Streams L' i ms j := by
  induction ms generalizing i with
  | nil => exact h
  | cons m ms ih => exact ⟨h.1.mono hL, ih h.2⟩

theorem append (h : Streams L i ms j) (h' : Streams L j ms' k) : Streams L i (ms ++ ms') k := by
  induction ms generalizing i with
  | nil =>
      obtain rfl : i = j := h
      exact h'
  | cons m ms ih => exact ⟨h.1, ih h.2⟩

theorem le (h : Streams L i ms j) : i ≤ j := by
  induction ms generalizing i with
  | nil => exact Nat.le_of_eq h
  | cons m ms ih => exact Nat.le_trans (Nat.le_add_right _ _) (ih h.2)

theorem carries_of_mem (h : Streams L i ms j) (hm : m ∈ ms) : Carries L (m.index + 1) m := by
  induction ms generalizing i with
  | nil => cases hm
  | cons m' ms ih =>
      rcases List.mem_cons.mp hm with rfl | hm
      · have hindex := h.1.index
        rw [hindex]
        exact h.1
      · exact ih h.2 hm

/-- Put together, the entries of a stream are one segment of the log. -/
theorem flatMap_entries (h : Streams L i ms j) (hi : 1 ≤ i) (hb : L.base ≤ i - 1) :
    ms.flatMap Message.entries = L.segment (i - 1) (j - i) := by
  induction ms generalizing i with
  | nil =>
      obtain rfl : i = j := h
      rw [Nat.sub_self, segment_zero]
      rfl
  | cons m ms ih =>
      have hindex : m.index = i - 1 := by
        have := h.1.index
        omega
      have hle := h.2.le
      have hentries := h.1.entries
      rw [hindex] at hentries
      rw [List.flatMap_cons, ih h.2 (by omega) (by omega),
        show j - i = m.entries.length + (j - (i + m.entries.length)) by omega,
        segment_add hb, ← hentries,
        show i + m.entries.length - 1 = i - 1 + m.entries.length by omega]

end Streams

/-! ## §3  One call -/

/-- The peer replicates, and what it needs next is in the log or right behind it. -/
structure Replicating (r : Raft MemStorage) (pr : Progress) : Prop where
  log : r.raftLog.WellFormed
  state : pr.state = .Replicate
  window : ∃ q, pr.ins.Queues q
  low : r.raftLog.logical.base < pr.nextIdx
  high : pr.nextIdx ≤ r.raftLog.logical.lastIndex + 1

omit [ProtoMessage Entry] in
theorem Replicating.isPaused (h : Replicating r pr) : pr.isPaused = pr.ins.full := by
  rw [Progress.isPaused, h.state]

/-- With a full window nothing happens. -/
theorem sendAppendVia_full (hstate : pr.state = .Replicate) (hfull : pr.ins.full = true) :
    Raft.sendAppendVia send to_ pr r = ⟨.ok pr, r, []⟩ := by
  have hpaused : pr.isPaused = true := by
    rw [Progress.isPaused, hstate]
    exact hfull
  rw [Raft.sendAppendVia, if_pos hpaused]
  rfl

omit [ProtoMessage Entry] in
/-- The last entry of a segment sits at its end. -/
theorem index_getLast {log : RaftLog MemStorage} (hwf : log.WellFormed) {es : List Entry}
    {e : Entry} (hb : log.logical.base ≤ i) (hes : es = log.logical.segment i es.length)
    (hlast : es.getLast? = some e) : e.index = i + es.length := by
  rw [List.getLast?_eq_getElem?] at hlast
  have hlt := (List.getElem?_eq_some_iff.mp hlast).1
  rw [hes, segment_getElem? hb (by rw [← hes]; exact hlt), ← hes] at hlast
  have hidx := hwf.indexed _ e hlast
  omega

/-- A read from inside the log, or right behind it, is a beginning of what follows. -/
theorem entries_segment {log : RaftLog MemStorage} (hwf : log.WellFormed)
    (hlow : log.logical.base < i) (hhigh : i ≤ log.logical.lastIndex + 1) (max : ℕ) :
    ∃ es, log.entries i max = .ok (.ok es) ∧
      es = log.logical.segment (i - 1) es.length ∧ i - 1 + es.length ≤ log.logical.lastIndex := by
  refine ⟨_, hwf.entries_eq hlow max, ?_⟩
  have hprefix := limitSize_isPrefix
    (log.logical.segment (i - 1) (log.logical.lastIndex + 1 - i)) max
  have hlen := hprefix.length_le
  rw [length_segment (by omega) (by omega)] at hlen
  refine ⟨?_, by omega⟩
  have htake := List.prefix_iff_eq_take.mp hprefix
  rwa [take_segment, Nat.min_eq_left hlen] at htake

omit [ProtoMessage Entry] in
/-- A batch moves `next_idx` behind its last entry, and takes one place in the window. -/
theorem prepareSendEntries_replicating (hstate : pr.state = .Replicate) {q : List ℕ}
    (hq : pr.ins.Queues q) (hfull : pr.ins.full = false) (m : Message) (t : ℕ)
    (ents : List Entry) :
    ∃ pr', Raft.prepareSendEntries m pr t ents r =
        ⟨.ok ({ m with
          msgType := .MsgAppend
          index := wrappingSub pr.nextIdx 1
          logTerm := t
          entries := ents
          commit := r.raftLog.committed }, pr'), r, []⟩ ∧
      pr'.state = .Replicate ∧ (∃ q', pr'.ins.Queues q') ∧
      pr'.ins.capacity = pr.ins.capacity ∧
      pr'.nextIdx = (ents.getLast?.map fun e => e.index + 1).getD pr.nextIdx := by
  unfold Raft.prepareSendEntries
  rw [read_bind_run]
  cases hlast : ents.getLast? with
  | none => exact ⟨pr, rfl, hstate, ⟨q, hq⟩, rfl, rfl⟩
  | some e =>
      obtain ⟨ins, hadd, hcap, hq'⟩ := hq.add hfull e.index
      refine ⟨{ pr.optimisticUpdate e.index with ins := ins }, ?_, hstate, ⟨_, hq'⟩, hcap, rfl⟩
      have hadd' : (pr.optimisticUpdate e.index).ins.add e.index = .ok ins := hadd
      dsimp only
      rw [hstate]
      dsimp only
      rw [hadd', lift_ok_bind_run]
      rfl

/-- With room in the window, the next entries are handed over, and `next_idx` moves behind
them. -/
theorem sendAppendVia_open (h : Replicating r pr) (hfull : pr.ins.full = false) :
    ∃ m pr', Raft.sendAppendVia send to_ pr r = (send m >>= fun _ => pure pr') r ∧
      Carries r.raftLog.logical pr.nextIdx m ∧ Replicating r pr' ∧
      pr'.nextIdx = pr.nextIdx + m.entries.length ∧ pr'.ins.capacity = pr.ins.capacity := by
  have hlow := h.low
  have hhigh := h.high
  have hprev : wrappingSub pr.nextIdx 1 = pr.nextIdx - 1 := wrappingSub_of_le (by omega)
  obtain ⟨t, ht⟩ := exists_stampAt (L := r.raftLog.logical) (i := pr.nextIdx - 1)
    (by omega) (by omega)
  have hterm : r.raftLog.term (wrappingSub pr.nextIdx 1) = .ok (.ok t) := by
    rw [hprev, h.log.presents.term, ht]
    rfl
  obtain ⟨ents, hents, hsegment, hwithin⟩ := entries_segment h.log hlow hhigh r.maxMsgSize
  obtain ⟨q, hq⟩ := h.window
  obtain ⟨pr', hprepare, hstate, hwindow, hcap, hnext⟩ :=
    prepareSendEntries_replicating (r := r) h.state hq hfull { to_ := to_ } t ents
  have hmoved : pr'.nextIdx = pr.nextIdx + ents.length := by
    rw [hnext]
    cases hlast : ents.getLast? with
    | none =>
        rw [List.getLast?_eq_none_iff.mp hlast]
        rfl
    | some e =>
        have hidx := index_getLast h.log (by omega) hsegment hlast
        show e.index + 1 = _
        omega
  have hopen : ¬ pr.isPaused = true := by
    rw [h.isPaused, hfull]
    exact Bool.false_ne_true
  rw [← hprev] at ht hsegment hwithin
  refine ⟨{ to_ := to_, msgType := .MsgAppend, index := wrappingSub pr.nextIdx 1, logTerm := t,
            entries := ents, commit := r.raftLog.committed }, pr', ?_,
    ⟨?_, ht, hsegment, hwithin⟩, ⟨h.log, hstate, hwindow, by omega, by omega⟩, hmoved, hcap⟩
  rotate_left
  · show wrappingSub pr.nextIdx 1 + 1 = pr.nextIdx
    omega
  · unfold Raft.sendAppendVia
    rw [if_neg hopen, read_bind_run, hterm, lift_ok_bind_run, hents, lift_ok_bind_run]
    dsimp only
    rw [bind_ok hprepare, Outcome.after_nil]

/-- The log stays well-formed, and is only added to. -/
def Grows (r r' : Raft MemStorage) : Prop :=
  r.raftLog.WellFormed →
    r'.raftLog.WellFormed ∧ r.raftLog.logical.Continues r'.raftLog.logical

omit [ProtoMessage Entry] in
/-- The cursors of the log are no part of what is read. -/
theorem Grows.of_frame (hstore : r'.raftLog.store = r.raftLog.store)
    (hunstable : r'.raftLog.unstable = r.raftLog.unstable) : Grows r r' := by
  intro h
  have hlogical : r'.raftLog.logical = r.raftLog.logical := by
    rw [logical, logical, hstore, hunstable]
  refine ⟨⟨?_, ?_, ?_⟩, ?_⟩
  · rw [hstore]
    exact h.store
  · rw [hunstable]
    exact h.unstable
  · rw [hstore, hunstable]
    exact h.fits
  · rw [hlogical]
    exact Continues.refl _

/-- A call that hands nothing over and only adds to the log. -/
def growing : Behaviour Event (Raft MemStorage) where
  runs r es r' := es = [] ∧ Grows r r'
  stops _ es _ := es = []
  refl _ := ⟨rfl, Grows.of_frame rfl rfl⟩
  stops_refl _ := rfl
  trans := by
    rintro r r' r'' _ _ ⟨rfl, h⟩ ⟨rfl, h'⟩
    refine ⟨rfl, fun hr => ?_⟩
    obtain ⟨hr', hcont⟩ := h hr
    obtain ⟨hr'', hcont'⟩ := h' hr'
    exact ⟨hr'', hcont.trans hcont'⟩
  stops_after := by
    rintro r r' r'' _ _ ⟨rfl, _⟩ rfl
    rfl

/-- A batch is numbered from the end of the log on, and added there. -/
theorem growing_appendEntry (ents : List Entry) (r : Raft MemStorage) :
    Does growing r (Raft.appendEntry ents) (fun _ _ => True) := by
  have hown : ∀ (f : Progress → Progress) (r : Raft MemStorage),
      Does growing r (Raft.updateOwnProgress f) (fun _ _ => True) := by
    intro f r
    unfold Raft.updateOwnProgress
    refine Does.read_bind (Raft.does_getPrs_bind fun prs _ => ?_)
    cases prs.get r.id with
    | none => exact Does.panic _
    | some pr => exact Does.of_ok (a := ()) rfl ⟨rfl, Grows.of_frame rfl rfl⟩ trivial
  have hcommit : ∀ r : Raft MemStorage, Does growing r Raft.maybeCommit (fun _ _ => True) := by
    intro r
    unfold Raft.maybeCommit
    refine Raft.does_getPrs_bind fun prs _ => Does.lift_bind fun mci _ => ?_
    refine Does.read_bind (Does.lift_bind fun a ha => ?_)
    obtain ⟨hstore, hunstable⟩ := maybeCommit_frame ha
    exact Does.modify_bind ⟨rfl, Grows.of_frame hstore hunstable⟩ (Does.pure trivial)
  unfold Raft.appendEntry
  refine Does.read_bind (Does.lift_bind fun li hli => Does.lift_bind fun a ha => ?_)
  refine Does.modify_bind ⟨rfl, fun hwf => ?_⟩ ?_
  · rw [hwf.presents.lastIndex] at hli
    cases hli
    have hes : Consecutive r.raftLog.logical.lastIndex (ents.mapIdx fun i e =>
        { e with term := r.term, index := r.raftLog.logical.lastIndex + 1 + i }) := by
      intro k e he
      rw [List.getElem?_mapIdx] at he
      obtain ⟨d, _, rfl⟩ := Option.map_eq_some_iff.mp he
      rfl
    show a.2.WellFormed ∧ r.raftLog.logical.Continues a.2.logical
    obtain ⟨n, log'⟩ := a
    rcases append_ok hes ha with rfl | ⟨u, hne, _, hu, rfl⟩
    · exact ⟨hwf, Continues.refl _⟩
    · obtain ⟨hwf', hlog⟩ := hwf.truncateAndAppend hne hes base_le_lastIndex (Nat.le_refl _) hu
      refine ⟨hwf', ?_⟩
      show r.raftLog.logical.Continues (RaftLog.logical { r.raftLog with unstable := u })
      rw [hlog]
      exact Continues.overwrite_end _ _
  · refine Does.bind (hown _ _) fun _ r' _ => ?_
    exact Does.bind (hcommit r') fun _ _ _ => Does.pure trivial

/-! ## §4  A run -/

/-- What a run from `pr` leaves of stream and progress. -/
structure Streamed (r : Raft MemStorage) (pr : Progress)
    (o : Outcome Panic Event (Raft MemStorage) Progress) (L : PlainLog Entry ℕ) (j : ℕ) :
    Prop where
  continues : r.raftLog.logical.Continues L
  indexed : Indexed L
  streams : Streams L pr.nextIdx (handed o.trace) j
  returns : ∀ pr', o.value = .ok pr' → Replicating o.state pr' ∧ o.state.raftLog.logical = L ∧
    pr'.nextIdx = j ∧ pr'.ins.capacity = pr.ins.capacity

omit [ProtoMessage Entry] in
/-- A call that hands nothing over and panics. -/
theorem Streamed.of_error (hwf : r.raftLog.WellFormed)
    {o : Outcome Panic Event (Raft MemStorage) Progress} {p : Panic}
    (hvalue : o.value = .error p) (htrace : handed o.trace = []) :
    Streamed r pr o r.raftLog.logical pr.nextIdx := by
  refine ⟨Continues.refl _, hwf.indexed, ?_, fun pr' hpr' => ?_⟩
  · rw [htrace]
    exact rfl
  · rw [hvalue] at hpr'
    cases hpr'

omit [ProtoMessage Entry] in
theorem Streamed.still (h : Replicating r pr) :
    Streamed r pr ⟨.ok pr, r, []⟩ r.raftLog.logical pr.nextIdx := by
  refine ⟨Continues.refl _, h.log.indexed, rfl, ?_⟩
  rintro pr' ⟨⟩
  exact ⟨h, rfl, rfl, rfl⟩

omit [ProtoMessage Entry] in
/-- A run goes on where the first call ended. -/
theorem Streamed.bind {x : Call Panic Event (Raft MemStorage) Progress}
    {f : Progress → Call Panic Event (Raft MemStorage) Progress}
    (hx : Streamed r pr (x r) L j)
    (hf : ∀ pr' r', Replicating r' pr' → ∃ L' k, Streamed r' pr' (f pr' r') L' k) :
    ∃ L' k, Streamed r pr ((x >>= f) r) L' k := by
  cases hrun : x r with
  | mk v r' es =>
    rw [hrun] at hx
    cases v with
    | error p =>
        rw [bind_error hrun]
        refine ⟨L, j, hx.continues, hx.indexed, hx.streams, ?_⟩
        intro pr' hpr'
        cases hpr'
    | ok pr₁ =>
        obtain ⟨h₁, hlog, hnext, hcap⟩ := hx.returns pr₁ rfl
        obtain ⟨L', k, hrest⟩ := hf pr₁ r' h₁
        have hcont : L.Continues L' := by
          rw [← hlog]
          exact hrest.continues
        rw [bind_ok hrun]
        refine ⟨L', k, hx.continues.trans hcont, hrest.indexed, ?_, ?_⟩
        · rw [Outcome.after_trace, handed_append]
          refine (hx.streams.mono hcont).append ?_
          rw [← hnext]
          exact hrest.streams
        · intro pr' hpr'
          obtain ⟨h', hlog', hnext', hcap'⟩ := hrest.returns pr' hpr'
          exact ⟨h', hlog', hnext', hcap'.trans hcap⟩

omit [ProtoMessage Entry] in
/-- A call that changes the window only. -/
theorem Streamed.of_window (h : Replicating r pr) {x : Except Panic Inflights}
    (hx : ∀ ins, x = .ok ins → (∃ q, ins.Queues q) ∧ ins.capacity = pr.ins.capacity) :
    Streamed r pr
      ((do
        let ins ← Call.lift x
        pure { pr with ins := ins } : Call Panic Event (Raft MemStorage) Progress) r)
      r.raftLog.logical pr.nextIdx := by
  cases hins : x with
  | error p => exact Streamed.of_error h.log rfl rfl
  | ok ins =>
      obtain ⟨hwindow, hcap⟩ := hx ins hins
      refine ⟨Continues.refl _, h.log.indexed, rfl, ?_⟩
      rintro pr' ⟨⟩
      exact ⟨⟨h.log, h.state, hwindow, h.low, h.high⟩, rfl, rfl, hcap⟩

/-- One message carries the next entries on, or the window is full and nothing happens. -/
theorem streamed_sendAppend (hsend : Hands send) (h : Replicating r pr) :
    ∃ j, Streamed r pr (Raft.sendAppendVia send to_ pr r) r.raftLog.logical j := by
  cases hfull : pr.ins.full with
  | true =>
      rw [sendAppendVia_full h.state hfull]
      exact ⟨pr.nextIdx, Streamed.still h⟩
  | false =>
      obtain ⟨m, pr₁, hrun, hcarries, h₁, hnext, hcap⟩ := sendAppendVia_open h hfull
      refine ⟨pr.nextIdx + m.entries.length, ?_⟩
      rw [hrun]
      have htrace := hsend.trace m r
      have hlog := hsend.log m r
      cases hsent : send m r with
      | mk v r' es =>
        rw [hsent] at htrace hlog
        obtain rfl : es = [.handed m] := htrace
        have hstream : Streams r.raftLog.logical pr.nextIdx [m]
            (pr.nextIdx + m.entries.length) := ⟨hcarries, rfl⟩
        cases v with
        | error p =>
            rw [bind_error hsent]
            exact ⟨Continues.refl _, h.log.indexed, hstream, nofun⟩
        | ok u =>
            rw [bind_ok hsent]
            refine ⟨Continues.refl _, h.log.indexed, hstream, ?_⟩
            rintro pr' ⟨⟩
            have hlogical : r'.raftLog = r.raftLog := hlog
            refine ⟨⟨?_, h₁.state, h₁.window, ?_, ?_⟩, congrArg RaftLog.logical hlogical,
              hnext, hcap⟩
            · exact hlogical ▸ h₁.log
            · exact hlogical ▸ h₁.low
            · exact hlogical ▸ h₁.high

/-- The log goes on behind what is streamed. -/
theorem streamed_appendEntry (h : Replicating r pr) (ents : List Entry) :
    ∃ L, Streamed r pr ((do
      Raft.appendEntry ents
      pure pr : Call Panic Event (Raft MemStorage) Progress) r) L pr.nextIdx := by
  have hgrow := growing_appendEntry ents r
  cases hrun : Raft.appendEntry ents r with
  | mk v r' es =>
    cases v with
    | error p =>
        obtain rfl : es = [] := hgrow.error hrun
        rw [bind_error hrun]
        exact ⟨_, Streamed.of_error h.log rfl rfl⟩
    | ok u =>
        obtain ⟨⟨rfl, hgrows⟩, _⟩ := hgrow.ok hrun
        obtain ⟨hwf, hcont⟩ := hgrows h.log
        rw [bind_ok hrun]
        refine ⟨r'.raftLog.logical, hcont, hwf.indexed, rfl, ?_⟩
        rintro pr' ⟨⟩
        refine ⟨⟨hwf, h.state, h.window, ?_, ?_⟩, rfl, rfl, rfl⟩
        · show r'.raftLog.logical.base < pr.nextIdx
          rw [hcont.base]
          exact h.low
        · exact Nat.le_trans h.high (Nat.succ_le_succ hcont.lastIndex_le)

/-- What one call does to the stream. -/
theorem streamed_run (hsend : Hands send) (h : Replicating r pr) (c : StreamCall) :
    ∃ L j, Streamed r pr (c.run send to_ pr r) L j := by
  cases c with
  | sendAppend => exact ⟨_, streamed_sendAppend hsend h⟩
  | appendEntry ents =>
      obtain ⟨L, hstream⟩ := streamed_appendEntry h ents
      exact ⟨L, _, hstream⟩
  | freeTo to_ =>
      refine ⟨_, _, Streamed.of_window h ?_⟩
      intro ins hins
      obtain ⟨q, hq⟩ := h.window
      obtain ⟨ins', hrun, hcap, hq'⟩ := hq.freeTo to_
      rw [hrun] at hins
      cases hins
      exact ⟨⟨_, hq'⟩, hcap⟩
  | freeFirstOne =>
      refine ⟨_, _, Streamed.of_window h ?_⟩
      intro ins hins
      obtain ⟨q, hq⟩ := h.window
      obtain ⟨hcap, hwindow⟩ := hq.freeFirstOne_ok hins
      exact ⟨hwindow, hcap⟩

theorem streamed_runs (hsend : Hands send) (h : Replicating r pr) (cs : List StreamCall) :
    ∃ L j, Streamed r pr (StreamCall.runs send to_ cs pr r) L j := by
  induction cs generalizing r pr with
  | nil => exact ⟨_, _, Streamed.still h⟩
  | cons c cs ih =>
      have hone : ∃ L j, Streamed r pr (c.run send to_ pr r) L j := streamed_run hsend h c
      obtain ⟨L, j, hstep⟩ := hone
      exact hstep.bind fun pr' r' h' => ih h'

theorem appendEntry_trace (ents : List Entry) (r : Raft MemStorage) :
    (Raft.appendEntry ents r).trace = [] :=
  (growing_appendEntry ents r).elim (R := fun es _ => es = []) (fun _ _ h => h.1) fun _ _ h => h

/-- Appending to the log sends the peer nothing and leaves its progress alone. -/
theorem appendEntry_silent (ents : List Entry) :
    (StreamCall.run send to_ pr (.appendEntry ents) r).trace = [] ∧
      ∀ pr', (StreamCall.run send to_ pr (.appendEntry ents) r).value = .ok pr' → pr' = pr := by
  have hrun : StreamCall.run send to_ pr (.appendEntry ents) r =
      ⟨(Raft.appendEntry ents r).value.map fun _ => pr, (Raft.appendEntry ents r).state,
        (Raft.appendEntry ents r).trace⟩ := bind_pure_run _ (fun _ => pr) r
  rw [hrun, appendEntry_trace]
  refine ⟨rfl, fun pr' hpr' => ?_⟩
  obtain ⟨_, _, heq⟩ := map_eq_ok hpr'
  exact heq.symm

/-- Until something is freed, a full window lets nothing through. -/
theorem silent_run (hstate : pr.state = .Replicate) (hfull : pr.ins.full = true)
    {c : StreamCall} (hc : ¬ c.Frees) :
    (c.run send to_ pr r).trace = [] ∧ ∀ pr', (c.run send to_ pr r).value = .ok pr' → pr' = pr := by
  cases c with
  | sendAppend =>
      have hrun : StreamCall.run send to_ pr .sendAppend r = ⟨.ok pr, r, []⟩ :=
        sendAppendVia_full hstate hfull
      rw [hrun]
      refine ⟨rfl, ?_⟩
      rintro pr' ⟨⟩
      rfl
  | appendEntry ents => exact appendEntry_silent ents
  | freeTo to_ => exact absurd trivial hc
  | freeFirstOne => exact absurd trivial hc

theorem silent_runs (hstate : pr.state = .Replicate) (hfull : pr.ins.full = true)
    {cs : List StreamCall} (hcs : ∀ c ∈ cs, ¬ c.Frees) :
    (StreamCall.runs send to_ cs pr r).trace = [] := by
  induction cs generalizing r with
  | nil => rfl
  | cons c cs ih =>
      obtain ⟨hc, hcs⟩ := List.forall_mem_cons.mp hcs
      have hone : (c.run send to_ pr r).trace = [] ∧
          ∀ pr', (c.run send to_ pr r).value = .ok pr' → pr' = pr := silent_run hstate hfull hc
      obtain ⟨htrace, hsame⟩ := hone
      show ((c.run send to_ pr >>= fun pr' => StreamCall.runs send to_ cs pr') r).trace = []
      cases hrun : c.run send to_ pr r with
      | mk v r' es =>
        rw [hrun] at htrace hsame
        obtain rfl : es = [] := htrace
        cases v with
        | error p =>
            rw [bind_error hrun]
        | ok pr' =>
            obtain rfl := hsame pr' rfl
            rw [bind_ok hrun, Outcome.after_nil]
            exact ih hcs

/-! ## §5  Probing -/

/-- The messages with entries. -/
def batches (es : List Event) : List Message := (handed es).filter fun m => m.entries ≠ []

/-- How many messages with entries may still be handed to a peer that is probed. -/
def probesLeft (pr : Progress) : ℕ := if pr.state = .Probe ∧ pr.paused = false then 1 else 0

/-- The call keeps within the budget, and the peer is not taken to replicate. -/
def Probes (pr : Progress) (o : Outcome Panic Event (Raft MemStorage) Progress) : Prop :=
  (batches o.trace).length ≤ probesLeft pr ∧
    ∀ pr', o.value = .ok pr' → pr'.state ≠ .Replicate ∧
      (batches o.trace).length + probesLeft pr' ≤ probesLeft pr

omit [ProtoMessage Entry] in
theorem probes_of_silent {o : Outcome Panic Event (Raft MemStorage) Progress}
    (htrace : batches o.trace = [])
    (hreturn : ∀ pr', o.value = .ok pr' →
      pr'.state ≠ .Replicate ∧ probesLeft pr' ≤ probesLeft pr) : Probes pr o := by
  rw [Probes, htrace]
  refine ⟨Nat.zero_le _, fun pr' hpr' => ?_⟩
  obtain ⟨hstate, hle⟩ := hreturn pr' hpr'
  refine ⟨hstate, ?_⟩
  rw [List.length_nil, Nat.zero_add]
  exact hle

theorem prepareSendSnapshot_cases (m : Message) (pr : Progress) (r : Raft MemStorage) :
    ∃ v, Raft.prepareSendSnapshot m pr r = ⟨v, r, []⟩ ∧
      ∀ x, v = .ok x → x.2.1.entries = m.entries ∧ (x.2.2 = pr ∨ x.2.2.state = .Snapshot) := by
  unfold Raft.prepareSendSnapshot
  by_cases hactive : pr.recentActive = true
  · rw [if_neg (not_not_intro hactive), read_bind_run]
    cases r.raftLog.snapshot with
    | error p => exact ⟨.error p, rfl, fun x hx => absurd hx nofun⟩
    | ok res =>
        rw [lift_ok_bind_run]
        split
        · refine ⟨_, rfl, ?_⟩
          rintro x ⟨⟩
          exact ⟨rfl, Or.inl rfl⟩
        · exact ⟨_, rfl, fun x hx => absurd hx nofun⟩
        · rename_i snapshot
          by_cases hzero : snapshot.metadata.index = 0
          · rw [if_pos hzero]
            exact ⟨_, rfl, fun x hx => absurd hx nofun⟩
          · rw [if_neg hzero]
            refine ⟨_, rfl, ?_⟩
            rintro x ⟨⟩
            exact ⟨rfl, Or.inr rfl⟩
  · rw [if_pos hactive]
    refine ⟨_, rfl, ?_⟩
    rintro x ⟨⟩
    exact ⟨rfl, Or.inl rfl⟩

omit [ProtoMessage Entry] in
/-- Entries handed to a probed peer pause it. -/
theorem prepareSendEntries_probing (hstate : pr.state = .Probe) (m : Message) (t : ℕ)
    (ents : List Entry) :
    ∃ m' pr', Raft.prepareSendEntries m pr t ents r = ⟨.ok (m', pr'), r, []⟩ ∧
      m'.entries = ents ∧ (ents = [] ∧ pr' = pr ∨ pr' = pr.pause) := by
  unfold Raft.prepareSendEntries
  rw [read_bind_run]
  cases hlast : ents.getLast? with
  | none => exact ⟨_, _, rfl, rfl, Or.inl ⟨List.getLast?_eq_none_iff.mp hlast, rfl⟩⟩
  | some e =>
      dsimp only
      rw [hstate]
      exact ⟨_, _, rfl, rfl, Or.inr rfl⟩

omit [ProtoMessage Entry] in
/-- Handing one message over, if it has entries, uses the budget up. -/
theorem probes_send (hsend : Hands send) (hleft : probesLeft pr = 1)
    (hstate : pr'.state ≠ .Replicate) (hbudget : m.entries = [] ∨ probesLeft pr' = 0) :
    Probes pr ((send m >>= fun _ => pure pr') r) := by
  have hbatches : batches [.handed m] = if m.entries ≠ [] then [m] else [] := by
    by_cases hnil : m.entries = []
    · simp [batches, handed, hnil]
    · simp [batches, handed, hnil]
  have hle : ∀ pr : Progress, probesLeft pr ≤ 1 := by
    intro pr
    rw [probesLeft]
    split
    · exact Nat.le_refl _
    · exact Nat.zero_le _
  rw [bind_pure_run, Probes, hsend.trace, hbatches, hleft]
  by_cases hnil : m.entries = []
  · rw [if_neg (not_not_intro hnil)]
    refine ⟨Nat.zero_le _, fun pr₁ hpr₁ => ?_⟩
    obtain ⟨_, _, rfl⟩ := map_eq_ok hpr₁
    exact ⟨hstate, by rw [List.length_nil, Nat.zero_add]; exact hle _⟩
  · rw [if_pos hnil]
    refine ⟨Nat.le_refl _, fun pr₁ hpr₁ => ?_⟩
    obtain ⟨_, _, rfl⟩ := map_eq_ok hpr₁
    exact ⟨hstate, by rw [hbudget.resolve_left hnil]; exact Nat.le_refl _⟩

/-- A snapshot in place of entries has none. -/
theorem probes_sendSnapshot (hsend : Hands send) (hstate : pr.state ≠ .Replicate)
    (hleft : probesLeft pr = 1) (hm : m.entries = []) :
    Probes pr ((do
      let x ← Raft.prepareSendSnapshot m pr
      if ¬ x.1 then pure x.2.2
      else
        send x.2.1
        pure x.2.2 : Call Panic Event (Raft MemStorage) Progress) r) := by
  obtain ⟨v, hrun, hcases⟩ := prepareSendSnapshot_cases m pr r
  cases v with
  | error p =>
      rw [bind_error hrun]
      exact probes_of_silent rfl nofun
  | ok x =>
      obtain ⟨hentries, hpr⟩ := hcases x rfl
      have hstate' : x.2.2.state ≠ .Replicate := by
        rcases hpr with heq | hsnap
        · rw [heq]
          exact hstate
        · rw [hsnap]
          exact nofun
      rw [bind_ok hrun, Outcome.after_nil]
      by_cases hgo : x.1 = true
      · rw [if_neg (not_not_intro hgo)]
        exact probes_send hsend hleft hstate' (Or.inl (hentries.trans hm))
      · rw [if_pos hgo]
        refine probes_of_silent rfl ?_
        rintro pr' ⟨⟩
        refine ⟨hstate', ?_⟩
        rcases hpr with heq | hsnap
        · rw [heq]
        · rw [probesLeft, hsnap, if_neg (by simp)]
          exact Nat.zero_le _

theorem probes_sendAppend (hsend : Hands send) (hstate : pr.state ≠ .Replicate) :
    Probes pr (Raft.sendAppendVia send to_ pr r) := by
  by_cases hpaused : pr.isPaused = true
  · rw [Raft.sendAppendVia, if_pos hpaused]
    refine probes_of_silent rfl ?_
    rintro pr' ⟨⟩
    exact ⟨hstate, Nat.le_refl _⟩
  have hprobe : pr.state = .Probe ∧ pr.paused = false := by
    rw [Progress.isPaused] at hpaused
    cases hs : pr.state with
    | Probe =>
        rw [hs] at hpaused
        exact ⟨rfl, by simpa using hpaused⟩
    | Replicate => exact absurd hs hstate
    | Snapshot =>
        rw [hs] at hpaused
        exact absurd rfl hpaused
  have hleft : probesLeft pr = 1 := if_pos hprobe
  unfold Raft.sendAppendVia
  rw [if_neg hpaused, read_bind_run]
  cases hterm : r.raftLog.term (wrappingSub pr.nextIdx 1) with
  | error p => exact probes_of_silent rfl nofun
  | ok term =>
      rw [lift_ok_bind_run]
      cases hents : r.raftLog.entries pr.nextIdx r.maxMsgSize with
      | error p => exact probes_of_silent rfl nofun
      | ok ents =>
          rw [lift_ok_bind_run]
          have hsnapshot :=
            probes_sendSnapshot (r := r) (m := { to_ := to_ }) hsend hstate hleft rfl
          cases term with
          | error e => exact hsnapshot
          | ok t =>
              cases ents with
              | error e => exact hsnapshot
              | ok es =>
                  obtain ⟨m', pr', hrun, hentries, hpr'⟩ :=
                    prepareSendEntries_probing (r := r) hprobe.1 { to_ := to_ } t es
                  dsimp only
                  rw [bind_ok hrun, Outcome.after_nil]
                  rcases hpr' with ⟨hnil, rfl⟩ | rfl
                  · exact probes_send hsend hleft hstate (Or.inl (hentries.trans hnil))
                  · exact probes_send hsend hleft hstate (Or.inr (if_neg fun h => by cases h.2))

theorem probes_run (hsend : Hands send) (hstate : pr.state ≠ .Replicate) (c : StreamCall) :
    Probes pr (c.run send to_ pr r) := by
  have hwindow : ∀ x : Except Panic Inflights, Probes pr
      ((do
        let ins ← Call.lift x
        pure { pr with ins := ins } : Call Panic Event (Raft MemStorage) Progress) r) := by
    intro x
    cases x with
    | error p => exact probes_of_silent rfl nofun
    | ok ins =>
        refine probes_of_silent rfl ?_
        rintro pr' ⟨⟩
        exact ⟨hstate, Nat.le_refl _⟩
  cases c with
  | sendAppend => exact probes_sendAppend hsend hstate
  | appendEntry ents =>
      have hsilent : (StreamCall.run send to_ pr (.appendEntry ents) r).trace = [] ∧ _ :=
        appendEntry_silent ents
      obtain ⟨htrace, hsame⟩ := hsilent
      refine probes_of_silent (by rw [htrace]; rfl) fun pr' hpr' => ?_
      obtain rfl : pr' = pr := hsame pr' hpr'
      exact ⟨hstate, Nat.le_refl _⟩
  | freeTo to_ => exact hwindow _
  | freeFirstOne => exact hwindow _

theorem probes_runs (hsend : Hands send) (hstate : pr.state ≠ .Replicate)
    (cs : List StreamCall) : (batches (StreamCall.runs send to_ cs pr r).trace).length ≤
      probesLeft pr := by
  induction cs generalizing r pr with
  | nil => exact Nat.zero_le _
  | cons c cs ih =>
      have hone : Probes pr (c.run send to_ pr r) := probes_run hsend hstate c
      obtain ⟨hle, hreturn⟩ := hone
      show (batches ((c.run send to_ pr >>= fun pr' =>
        StreamCall.runs send to_ cs pr') r).trace).length ≤ _
      cases hrun : c.run send to_ pr r with
      | mk v r' es =>
        rw [hrun] at hle hreturn
        cases v with
        | error p =>
            rw [bind_error hrun]
            exact hle
        | ok pr' =>
            obtain ⟨hstate', hbudget⟩ := hreturn pr' rfl
            have hrest := ih (r := r') hstate'
            rw [bind_ok hrun, Outcome.after_trace, batches, handed_append, List.filter_append,
              List.length_append]
            exact Nat.le_trans (Nat.add_le_add_left hrest _) hbudget

/-! ## §6  The two together -/

/-- Where a run from `pr` that returned has come to: the window holds no more than its
capacity, with room in it the next call hands the next message over and only `send` can
panic, and without room nothing is handed over until something is freed. -/
structure ComesTo (send : Message → Call Panic Event (Raft MemStorage) Unit) (to_ : ℕ)
    (pr : Progress) (r' : Raft MemStorage) (pr' : Progress) (L : PlainLog Entry ℕ) (j : ℕ) :
    Prop where
  log : r'.raftLog.logical = L
  nextIdx : pr'.nextIdx = j
  cap : pr'.ins.cap = pr.ins.cap
  window : pr'.ins.contents.length ≤ pr'.ins.cap
  add : pr'.ins.full = false → ∀ x, ∃ ins, pr'.ins.add x = .ok ins
  room : pr'.ins.full = false → ∃ m pr'',
    Raft.sendAppendVia send to_ pr' r' = (send m >>= fun _ => pure pr'') r' ∧
      Carries L j m ∧ pr''.nextIdx = j + m.entries.length
  silent : pr'.ins.full = true → ∀ cs, (∀ c ∈ cs, ¬ c.Frees) →
    handed (StreamCall.runs send to_ cs pr' r').trace = []

/-- The messages of a run carry the entries of the log from the first `next_idx` to before
the last one. -/
structure Replicates (send : Message → Call Panic Event (Raft MemStorage) Unit) (to_ : ℕ)
    (r : Raft MemStorage) (pr : Progress) (cs : List StreamCall) (L : PlainLog Entry ℕ)
    (j : ℕ) : Prop where
  continues : r.raftLog.logical.Continues L
  index : ∀ m ∈ handed (StreamCall.runs send to_ cs pr r).trace, ∀ e ∈ m.entries.head?,
    e.index = m.index + 1
  logTerm : ∀ m ∈ handed (StreamCall.runs send to_ cs pr r).trace,
    L.stampAt m.index = some m.logTerm
  entries : (handed (StreamCall.runs send to_ cs pr r).trace).flatMap Message.entries =
    L.segment (pr.nextIdx - 1) (j - pr.nextIdx)
  returns : ∀ pr', (StreamCall.runs send to_ cs pr r).value = .ok pr' →
    ComesTo send to_ pr (StreamCall.runs send to_ cs pr r).state pr' L j

theorem Replicating.comesTo (h : Replicating r' pr') (hcap : pr'.ins.capacity = pr.ins.capacity) :
    ComesTo send to_ pr r' pr' r'.raftLog.logical pr'.nextIdx where
  log := rfl
  nextIdx := rfl
  cap := hcap
  window := by
    obtain ⟨q, hq⟩ := h.window
    rw [hq.contents_eq]
    exact hq.length_le
  add := by
    intro hfull x
    obtain ⟨q, hq⟩ := h.window
    obtain ⟨ins, hadd, _⟩ := hq.add hfull x
    exact ⟨ins, hadd⟩
  room := by
    intro hfull
    obtain ⟨m, pr'', hrun, hcarries, _, hnext, _⟩ := sendAppendVia_open h hfull
    exact ⟨m, pr'', hrun, hcarries, hnext⟩
  silent := by
    intro hfull cs hcs
    rw [silent_runs h.state hfull hcs]
    rfl

/-- To a replicating peer the log goes out without a gap and without a repetition, and to a
probed one at most one batch goes out. -/
theorem replication_stream (hsend : Hands send) (to_ : ℕ) (r : Raft MemStorage) (pr : Progress)
    (cs : List StreamCall) :
    (Replicating r pr → ∃ L j, Replicates send to_ r pr cs L j) ∧
      (pr.state = .Probe → (batches (StreamCall.runs send to_ cs pr r).trace).length ≤ 1) := by
  constructor
  · intro h
    have hstream : ∃ L j, Streamed r pr (StreamCall.runs send to_ cs pr r) L j :=
      streamed_runs hsend h cs
    obtain ⟨L, j, hrun⟩ := hstream
    have hlow := h.low
    refine ⟨L, j, hrun.continues, ?_, fun m hm => (hrun.streams.carries_of_mem hm).logTerm, ?_, ?_⟩
    · intro m hm e he
      have hcarries := hrun.streams.carries_of_mem hm
      have hlt : 0 < m.entries.length := by
        cases hm' : m.entries with
        | nil =>
            rw [hm'] at he
            cases he
        | cons e' es => exact Nat.succ_pos _
      rw [Option.mem_def, List.head?_eq_getElem?, hcarries.entries,
        segment_getElem? hcarries.base_le hlt] at he
      exact hrun.indexed _ e he
    · refine hrun.streams.flatMap_entries (by omega) ?_
      rw [hrun.continues.base]
      omega
    · intro pr' hpr'
      obtain ⟨h', rfl, rfl, hcap⟩ := hrun.returns pr' hpr'
      exact h'.comesTo hcap
  · intro hstate
    have hprobe : pr.state ≠ .Replicate := by
      rw [hstate]
      exact nofun
    refine Nat.le_trans (probes_runs hsend hprobe cs) ?_
    rw [probesLeft]
    split
    · exact Nat.le_refl _
    · exact Nat.zero_le _

end

/-! A peer that has the snapshot gets the entries behind it, while one more is appended. -/

/-- A `send` that drops the message. -/
def dropping (m : Message) : Call Panic Event (Raft MemStorage) Unit := Call.emit (.handed m)

theorem hands_dropping : Hands dropping := ⟨fun _ _ => rfl, fun _ _ => rfl⟩

def sender : Raft MemStorage := { Raft.memNode 1 [1, 2] [] with raftLog := overlapping }

def follower : Progress :=
  { Progress.new 3 256 with state := .Replicate, nextIdx := 3, ins := Inflights.new 2 }

theorem replicating_follower : Replicating sender follower :=
  ⟨wellFormed_overlapping, rfl, ⟨[], Inflights.queues_new 2⟩, by decide, by decide⟩

theorem replication_stream_two :
    Replicating sender follower ∧
      (∃ L j, Replicates dropping 2 sender follower
        [.sendAppend, .appendEntry [{}], .sendAppend] L j) ∧
      (∃ L j, Replicates Raft.send 2 sender follower
        [.sendAppend, .appendEntry [{}], .sendAppend] L j) ∧
      (batches (StreamCall.runs dropping 2 [.sendAppend, .appendEntry [{}], .sendAppend]
        { follower with state := .Probe } sender).trace).length ≤ 1 :=
  ⟨replicating_follower,
    (replication_stream hands_dropping 2 sender follower _).1 replicating_follower,
    (replication_stream hands_send 2 sender follower _).1 replicating_follower,
    (replication_stream hands_dropping 2 sender { follower with state := .Probe } _).2 rfl⟩

end RsRaft
