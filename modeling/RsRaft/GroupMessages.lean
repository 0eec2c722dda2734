import RsRaft.GroupLog
import RsRaft.Replication

/-!
# Messages of a leader

A leader sends parts of its log and heartbeats to its peers, and keeps what it knows of
them in their `Progress`. `send` refuses the messages of a leader, which carry no term;
here they are stamped with the term of their node and queued. The source never gets so
far as to call the methods of `Progress` itself, so they are taken one by one, in any
order; only what a peer is said to hold has to be what it has answered.

§1 one peer, and all of them · §2 parts of the log · §3 heartbeats · §4 what is noted of
a peer.
-/

namespace RsRaft

open PlainLog Call Raft

namespace Raft

variable {T : Type}

/-- Replace the progress of one peer. -/
def withPeer (id : ℕ) (f : Progress → Call Panic Event (Raft T) Progress) :
    Call Panic Event (Raft T) Unit := do
  let prs ← getPrs
  match prs.get id with
  | none => Call.panic .unwrapNone
  | some pr => do
      let pr ← f pr
      setPrs (prs.put id pr)

/-- `send_heartbeat`, handing its message to `send`. -/
def sendHeartbeatVia (send : Message → Call Panic Event (Raft T) Unit) (to_ : ℕ)
    (pr : Progress) (ctx : Option Bytes) : Call Panic Event (Raft T) Unit := do
  let self ← Call.read
  let msg : Message :=
    { to_ := to_
      msgType := .MsgHeartbeat
      commit := min pr.matched self.raftLog.committed
      context := ctx.getD [] }
  send msg

theorem sendHeartbeatVia_send (to_ : ℕ) (pr : Progress) (ctx : Option Bytes) :
    (sendHeartbeatVia send to_ pr ctx : Call Panic Event (Raft T) Unit) =
      sendHeartbeat to_ pr ctx := rfl

/-- `handler_heartbeat`, handing its reply to `send`. -/
def handlerHeartbeatVia [Storage T] (send : Message → Call Panic Event (Raft T) Unit)
    (msg : Message) : Call Panic Event (Raft T) Unit := do
  let self ← Call.read
  let log ← Call.lift (self.raftLog.commitTo msg.commit)
  Call.modify fun self => { self with raftLog := log }
  send { to_ := msg.from_, msgType := .MsgHeartbeatResponse, context := msg.context }

theorem handlerHeartbeatVia_send [Storage T] (msg : Message) :
    (handlerHeartbeatVia send msg : Call Panic Event (Raft T) Unit) =
      handlerHeartbeat msg := rfl

/-- `bcast_append`, with what `send` does. -/
def bcastAppendVia [Storage T] [ProtoMessage Entry]
    (send : Message → Call Panic Event (Raft T) Unit) : Call Panic Event (Raft T) Unit :=
  forPeers (sendAppendVia send)

theorem bcastAppendVia_send [Storage T] [ProtoMessage Entry] :
    (bcastAppendVia send : Call Panic Event (Raft T) Unit) = bcastAppend := rfl

/-- `bcast_heartbeat`, with what `send` does. -/
def bcastHeartbeatVia (send : Message → Call Panic Event (Raft T) Unit) :
    Call Panic Event (Raft T) Unit := do
  let ctx := (← Call.read).readOnly.lastPendingRequestCtx
  forPeers fun id pr => do
    sendHeartbeatVia send id pr ctx
    pure pr

theorem bcastHeartbeatVia_send :
    (bcastHeartbeatVia send : Call Panic Event (Raft T) Unit) = bcastHeartbeat := rfl

end Raft

variable {V : Finset ℕ} {A A' : Consensus.Group ℕ Entry} {b s v k : ℕ} {m q : Message}
  {K : Consensus.Group ℕ Entry → Prop} {hK : ∀ A A', Consensus.Records A A' → K A → K A'}
  {r r' : Raft MemStorage} {id : ℕ} {pr pr' : Progress}

/-! ## §1  One peer, and all of them -/

/-- A call for the peer `id` has put messages into the queue, and what it makes of the progress
of the peer is known as well. -/
def Told (K : Consensus.Group ℕ Entry → Prop) (r : Raft MemStorage) (id : ℕ) (pr' : Progress)
    (r' : Raft MemStorage) : Prop :=
  (∃ ms, r' = { r with msgs := r.msgs ++ ms }) ∧
    ∀ A, K A → Known A r.term r.raftLog.logical.lastIndex id pr'

theorem accounted_withPeer {f : Progress → Call Panic Event (Raft MemStorage) Progress}
    (hl : r.state = .Leader)
    (hf : ∀ (K' : Consensus.Group ℕ Entry → Prop)
      (hK' : ∀ A A', Consensus.Records A A' → K' A → K' A') (A₀ : Consensus.Group ℕ Entry) pr,
      Consensus.Sound (Quorum V) b s A₀ → Mirrors V A₀ v r → K' A₀ →
      (∀ A, K' A → K A ∧ Known A r.term r.raftLog.logical.lastIndex id pr) →
      Does (accounted V b s v K' hK') r (f pr) (Told K' r id)) :
    Does (accounted V b s v K hK) r (withPeer id f) (fun _ _ => True) := by
  unfold withPeer
  refine does_getPrs_bind fun p hp => ?_
  cases hget : p.get id with
  | none => exact Does.panic _
  | some pr =>
      have hmono : ∀ A A', Consensus.Records A A' →
          K A ∧ Known A r.term r.raftLog.logical.lastIndex id pr →
          K A' ∧ Known A' r.term r.raftLog.logical.lastIndex id pr :=
        fun A A' hrec h => ⟨hK A A' hrec h.1, h.2.mono hrec.acked (Nat.le_refl _)⟩
      refine accounted_within hmono (fun A _ hk h => ⟨hk, h.peers hl p id pr hp hget⟩)
        fun A₀ hA₀ hk₀ h₀ => ?_
      refine Does.bind (hf _ _ A₀ pr hA₀ h₀ hk₀ fun _ hk => hk) ?_
      rintro pr' _ ⟨⟨ms, rfl⟩, hknown⟩
      refine Does.of_ok (a := ()) rfl (accounted_unnoticed fun A _ hk h => ?_) trivial
      exact h.put hp hget fun _ => hknown A hk

/-- A leader is one also while its progress set is out. -/
theorem Mirrors.take (h : Mirrors V A v r) (hl : r.state = .Leader) :
    Mirrors V A v { r with prs := none } :=
  { h with
    members := by rintro _ ⟨⟩
    voters := Or.inr (by rintro _ ⟨⟩)
    led := fun _ _ _ => Or.inl hl
    peers := by rintro _ _ _ _ ⟨⟩ }

theorem Mirrors.giveBack (h : Mirrors V A v r) (hl : r.state = .Leader) {prs : ProgressSet}
    (hprs : prs.WellFormed) (hvoters : prs.voterIds.keys.toFinset = V)
    (hknown : KnownAll A r.term r.raftLog.logical.lastIndex prs) :
    Mirrors V A v { r with prs := some prs } :=
  { h with
    members := by
      rintro _ ⟨⟩
      exact hprs
    voters := Or.inr (by
      rintro _ ⟨⟩
      exact hvoters)
    led := fun _ _ _ => Or.inl hl
    peers := by
      rintro _ _ id pr ⟨⟩ hpr
      exact hknown id pr hpr }

/-- The progress set is out while its peers are gone through, and comes back with what is
known of each of them. -/
theorem accounted_forPeers {f : ℕ → Progress → Call Panic Event (Raft MemStorage) Progress}
    (hl : r.state = .Leader)
    (hf : ∀ (K' : Consensus.Group ℕ Entry → Prop)
      (hK' : ∀ A A', Consensus.Records A A' → K' A → K' A') (t : Raft MemStorage) A₀ id pr,
      t.state = .Leader → t.raftLog.Sound →
      Known A₀ t.term t.raftLog.logical.lastIndex id pr →
      (∀ A, K' A → Known A t.term t.raftLog.logical.lastIndex id pr) →
      Does (accounted V b s v K' hK') t (f id pr) (Told K' t id)) :
    Does (accounted V b s v K hK) r (forPeers f) (fun _ _ => True) := by
  unfold forPeers takePrs
  refine Does.read_bind (Does.of_run_eq (bind_assoc_run _ _ _ _) (Does.read_bind ?_))
  cases hprs : r.prs with
  | none => exact Does.panic _
  | some p =>
      apply Does.of_run_eq (bind_assoc_run _ _ _ _)
      have hmono : ∀ A A', Consensus.Records A A' →
          KnownAll A r.term r.raftLog.logical.lastIndex p →
          KnownAll A' r.term r.raftLog.logical.lastIndex p := fun A A' hrec h => h.mono hrec
      refine accounted_within hmono
        (fun A _ _ h id pr hpr => h.peers hl p id pr hprs hpr) fun A₀ hA₀ hk₀ h₀ => ?_
      have hnot : r.state ≠ .FOLLOWER := by
        rw [hl]
        decide
      refine Does.modify_bind (accounted_still fun A _ h => h.take hl) ?_
      apply Does.of_run_eq (pure_bind_run _ _ _)
      unfold AList.forValuesM
      refine Does.bind (Does.foldlM (I := fun acc t =>
        (∃ ms, t = { r with prs := none, msgs := r.msgs ++ ms }) ∧
        (∀ k, k ∈ acc ↔ k ∈ p.progress) ∧
        ∀ k pr, acc.lookup k = some pr →
          ∀ A, KnownAll A r.term r.raftLog.logical.lastIndex p →
            Known A r.term r.raftLog.logical.lastIndex k pr)
        ⟨⟨[], by rw [List.append_nil]⟩, fun _ => Iff.rfl, fun k pr hpr A hk => hk k pr hpr⟩ ?_) ?_
      · rintro j _ acc _ ⟨⟨ms, rfl⟩, hkeys, hknown⟩
        cases hget : acc.lookup j with
        | none => exact Does.pure ⟨⟨ms, rfl⟩, hkeys, hknown⟩
        | some pr =>
            refine Does.bind (Q := Told (fun A =>
                KnownAll A r.term r.raftLog.logical.lastIndex p)
              { r with
                prs := none
                msgs := r.msgs ++ ms } j) (Does.ite (fun _ => ?_) fun _ => ?_) ?_
            · exact hf _ _ _ A₀ j pr hl h₀.sound (hknown j pr hget A₀ hk₀) (hknown j pr hget)
            · exact Does.pure ⟨⟨[], by rw [List.append_nil]⟩, hknown j pr hget⟩
            · rintro pr' _ ⟨⟨ms', rfl⟩, hknown'⟩
              refine Does.pure ⟨⟨ms ++ ms', by rw [List.append_assoc]⟩,
                fun k => AList.mem_replace.trans (hkeys k), fun k pri hpri => ?_⟩
              by_cases hkj : k = j
              · subst hkj
                have hmem : k ∈ acc := AList.mem_iff_exists_lookup.mpr ⟨pr, hget⟩
                rw [AList.lookup_replace_self pr' hmem] at hpri
                cases hpri
                exact hknown'
              · rw [AList.lookup_replace_ne pr' hkj] at hpri
                exact hknown k pri hpri
      · rintro acc _ ⟨⟨ms, rfl⟩, hkeys, hknown⟩
        refine Does.of_ok (a := ()) rfl (accounted_unnoticed fun A _ hk h => ?_) trivial
        have hwf := h₀.members p hprs
        exact Mirrors.giveBack h hl
          ⟨fun k => (hkeys k).trans (hwf.members k), hwf.disjoint⟩ (h₀.seated hnot hprs :)
          fun id pr hpr => hknown id pr hpr A hk

/-! ## §2  Parts of the log -/

/-- A leader sends a part of its log, and how far it has committed. -/
theorem Mirrors.send (h : Mirrors V A v r) (hA : Consensus.Sound (Quorum V) b s A)
    (hl : r.state = .Leader) {R : Consensus.Reign ℕ Entry} (hR : A.reign r.term = some R)
    {i n p c : ℕ} (hp : R.log.stampAt i = some p)
    (hn : i + n ≤ r.raftLog.logical.lastIndex) (hc : c ≤ r.raftLog.committed) :
    ∃ A', Consensus.Step (Quorum V) v A A' ∧ Consensus.Records A A' ∧ Mirrors V A' v r ∧
      A'.sent ⟨r.term, i, p, R.log.segment i n, c⟩ := by
  obtain ⟨R', hR', rfl, hterm, hRlog, _⟩ := h.reigning hA hl
  cases hR.symm.trans hR'
  rw [hRlog.lastIndex_eq] at hn
  have hstep : Consensus.Step (Quorum V) R.leader A _ :=
    .send (c := c) hR hp hn fun _ => ⟨hterm, by rw [h.committed]; exact hc⟩
  obtain ⟨_, hrec⟩ := hA.step (fun _ _ => Quorum.meet) hstep
  refine ⟨_, hstep, hrec, ?_, Or.inr rfl⟩
  exact
    { h with
      peers := fun hl prs id pr hprs hpr =>
        (h.peers hl prs id pr hprs hpr).mono (fun _ _ _ hj => hj) (Nat.le_refl _)
      posted := fun q hq => (h.posted q hq).mono hrec }

/-- The message made of entries read, and the progress behind it. -/
theorem prepareSendEntries_ok {msg : Message} {term : ℕ} {ents : List Entry}
    {res : Message × Progress} {es : List Event}
    (hrun : prepareSendEntries msg pr term ents r = ⟨.ok res, r', es⟩) :
    r' = r ∧
      res.1 = { msg with
        msgType := .MsgAppend
        index := wrappingSub pr.nextIdx 1
        logTerm := term
        entries := ents
        commit := r.raftLog.committed } ∧
      res.2.matched = pr.matched ∧ res.2.state = pr.state ∧
      res.2.recentActive = pr.recentActive ∧
      (res.2.nextIdx = pr.nextIdx ∨ ∃ e ∈ ents, res.2.nextIdx = e.index + 1) := by
  unfold prepareSendEntries at hrun
  rw [read_bind_run] at hrun
  dsimp only at hrun
  cases hlast : ents.getLast? with
  | none =>
      rw [hlast] at hrun
      cases hrun
      exact ⟨rfl, rfl, rfl, rfl, rfl, Or.inl rfl⟩
  | some e =>
      rw [hlast] at hrun
      have he : e ∈ ents := List.mem_of_getLast? hlast
      dsimp only at hrun
      cases hstate : pr.state with
      | Probe =>
          rw [hstate] at hrun
          cases hrun
          exact ⟨rfl, rfl, rfl, hstate, rfl, Or.inl rfl⟩
      | Replicate =>
          rw [hstate] at hrun
          dsimp only at hrun
          cases hins : (pr.optimisticUpdate e.index).ins.add e.index with
          | error p =>
              rw [hins] at hrun
              cases hrun
          | ok ins =>
              rw [hins] at hrun
              cases hrun
              exact ⟨rfl, rfl, rfl, hstate, rfl, Or.inr ⟨e, he, rfl⟩⟩
      | Snapshot =>
          rw [hstate] at hrun
          cases hrun

/-- A snapshot goes to a peer that has been active, and to no other. -/
theorem prepareSendSnapshot_ok {res : Bool × Message × Progress} {es : List Event}
    (hrun : prepareSendSnapshot m pr r = ⟨.ok res, r', es⟩) :
    r' = r ∧ (res.1 = true → res.2.1.msgType = .MsgSnapshot ∧ pr.recentActive = true) ∧
      (res.1 = false → res.2.2 = pr) := by
  unfold prepareSendSnapshot at hrun
  rw [ite_run] at hrun
  split at hrun
  · cases hrun
    exact ⟨rfl, nofun, fun _ => rfl⟩
  · rename_i hactive
    rw [read_bind_run] at hrun
    cases hread : r.raftLog.snapshot with
    | error p =>
        rw [hread] at hrun
        cases hrun
    | ok x =>
        rw [hread, lift_ok_bind_run] at hrun
        split at hrun
        · cases hrun
          exact ⟨rfl, nofun, fun _ => rfl⟩
        · cases hrun
        · split at hrun
          · cases hrun
          · cases hrun
            exact ⟨rfl, fun _ => ⟨rfl, not_not.mp hactive⟩, nofun⟩

/-- A peer is not known to be active, and so no snapshot goes out. -/
theorem accounted_sendSnapshot (hinactive : pr.recentActive = false)
    (hk : ∀ A, K A → Known A r.term r.raftLog.logical.lastIndex id pr) :
    Does (accounted V b s v K hK) r (do
      let x ← prepareSendSnapshot { to_ := id } pr
      if ¬ x.1 then pure x.2.2
      else
        enqueue x.2.1
        pure x.2.2 : Call Panic Event (Raft MemStorage) Progress) (Told K r id) := by
  refine Does.bind (Q := fun x r₁ => r₁ = r ∧
    (x.1 = true → x.2.1.msgType = .MsgSnapshot ∧ pr.recentActive = true) ∧
    (x.1 = false → x.2.2 = pr)) ?_ ?_
  · cases hrun : prepareSendSnapshot { to_ := id } pr r with
    | mk x r₁ es =>
        cases x with
        | error p => exact Does.of_error hrun trivial
        | ok x =>
            obtain ⟨rfl, hx⟩ := prepareSendSnapshot_ok hrun
            exact Does.of_ok hrun (accounted_still fun A _ h => h) ⟨rfl, hx⟩
  · rintro x r₁ ⟨rfl, hsent, hkept⟩
    refine Does.ite (fun hno => ?_) fun hgo => ?_
    · rw [hkept (by simpa using hno)]
      exact Does.pure ⟨⟨[], by rw [List.append_nil]⟩, hk⟩
    · rw [(hsent (not_not.mp hgo)).2] at hinactive
      cases hinactive

/-- Entries that are read are a part of the log, and not what is compacted. -/
theorem entries_inside {log : RaftLog MemStorage} (hwf : log.WellFormed) {i max : ℕ}
    {ents : List Entry} (hi : i ≤ log.logical.lastIndex + 1)
    (hread : log.entries i max = .ok (.ok ents)) :
    log.logical.base < i ∧ ents = log.logical.segment (i - 1) ents.length ∧
      i - 1 + ents.length ≤ log.logical.lastIndex := by
  have hb : log.logical.base < i := by
    by_contra hlow
    have hle := Nat.le_trans (Nat.le_of_not_lt hlow) log.logical.base_le_lastIndex
    rw [RaftLog.entries, hwf.presents.lastIndex, ok_bind, if_neg (Nat.not_lt_of_ge hle),
      (hwf.slice_compacted_iff (by omega) (Nat.le_refl _) max).mpr (by omega)] at hread
    cases hread
  obtain ⟨es, hes, hseg, hin⟩ := entries_segment hwf hb hi max
  rw [hread] at hes
  cases hes
  exact ⟨hb, hseg, hin⟩

/-- Entries are read no further than the log goes. -/
theorem index_le_of_entries {log : RaftLog MemStorage} (hwf : log.WellFormed) {i max : ℕ}
    {ents : List Entry} (hi : i ≤ log.logical.lastIndex + 1)
    (hread : log.entries i max = .ok (.ok ents)) {e : Entry} (he : e ∈ ents) :
    e.index ≤ log.logical.lastIndex := by
  obtain ⟨hb, hseg, hin⟩ := entries_inside hwf hi hread
  obtain ⟨k, hk⟩ := List.mem_iff_getElem?.mp he
  have hlt := (List.getElem?_eq_some_iff.mp hk).1
  rw [hseg, segment_getElem? (Nat.le_sub_one_of_lt hb) hlt] at hk
  rw [hwf.indexed _ e hk]
  omega

/-- What is read for a peer is a message of the leader. -/
theorem Mirrors.sendEntries (h : Mirrors V A v r) (hA : Consensus.Sound (Quorum V) b s A)
    (hl : r.state = .Leader) (hknown : Known A r.term r.raftLog.logical.lastIndex id pr)
    {p : ℕ} {ents : List Entry}
    (htr : r.raftLog.term (wrappingSub pr.nextIdx 1) = .ok (.ok p))
    (her : r.raftLog.entries pr.nextIdx r.maxMsgSize = .ok (.ok ents)) :
    ∃ A', Consensus.Step (Quorum V) v A A' ∧ Mirrors V A' v r ∧
      A'.sent ⟨r.term, pr.nextIdx - 1, p, ents, r.raftLog.committed⟩ ∧
      RaftLog.Consecutive (pr.nextIdx - 1) ents := by
  have hwf := h.sound.wellFormed
  obtain ⟨hb, hseg, hin⟩ := entries_inside hwf hknown.high her
  have hlow : r.raftLog.logical.base ≤ pr.nextIdx - 1 := Nat.le_sub_one_of_lt hb
  have hes : RaftLog.Consecutive (pr.nextIdx - 1) ents := by
    intro k e he
    have hk := (List.getElem?_eq_some_iff.mp he).1
    rw [hseg, segment_getElem? hlow hk] at he
    exact hwf.indexed _ e he
  have hat : r.raftLog.logical.stampAt (pr.nextIdx - 1) = some p := by
    obtain ⟨u, hu⟩ := exists_stampAt hlow (Nat.le_trans (Nat.le_add_right _ _) hin)
    rw [wrappingSub_of_le hknown.low, hwf.presents.term, hu] at htr
    cases htr
    exact hu
  obtain ⟨R, hR, _, _, hRlog, _⟩ := h.reigning hA hl
  obtain ⟨A', hstep, _, h', hsent⟩ :=
    h.send hA hl hR (hRlog.stampAt_of hat) hin (Nat.le_refl r.raftLog.committed)
  rw [← hRlog.segment_eq hlow, ← hseg] at hsent
  exact ⟨A', hstep, h', hsent, hes⟩

/-- What is noted of a peer behind the entries it is sent. -/
theorem Known.sent {t last : ℕ} {ents : List Entry} (h : Known A t last id pr)
    (hents : ∀ e ∈ ents, e.index ≤ last) (hmatched : pr'.matched = pr.matched)
    (hstate : pr'.state = pr.state) (hactive : pr'.recentActive = pr.recentActive)
    (hnext : pr'.nextIdx = pr.nextIdx ∨ ∃ e ∈ ents, pr'.nextIdx = e.index + 1) :
    Known A t last id pr' where
  inside := hmatched ▸ h.inside
  matched := hmatched ▸ h.matched
  low := by
    rcases hnext with heq | ⟨e, _, heq⟩
    · rw [heq]
      exact h.low
    · rw [heq]
      exact Nat.succ_pos _
  high := by
    rcases hnext with heq | ⟨e, he, heq⟩
    · rw [heq]
      exact h.high
    · rw [heq]
      exact Nat.succ_le_succ (hents e he)
  entries := hstate ▸ h.entries
  inactive := hactive.trans h.inactive

/-- A leader sends the part of its log behind what it takes a peer to hold. -/
theorem accounted_sendAppend (hl : r.state = .Leader) (hlog : r.raftLog.Sound)
    (hpr : Known A r.term r.raftLog.logical.lastIndex id pr)
    (hk : ∀ A, K A → Known A r.term r.raftLog.logical.lastIndex id pr) :
    Does (accounted V b s v K hK) r (sendAppendVia enqueue id pr) (Told K r id) := by
  unfold sendAppendVia
  refine Does.ite (fun _ => Does.pure ⟨⟨[], by rw [List.append_nil]⟩, hk⟩) fun _ => ?_
  refine Does.read_bind (Does.lift_bind fun tr htr => Does.lift_bind fun er her => ?_)
  cases tr with
  | error e => exact accounted_sendSnapshot hpr.inactive hk
  | ok p =>
      cases er with
      | error e => exact accounted_sendSnapshot hpr.inactive hk
      | ok ents =>
          dsimp only
          refine Does.bind (Q := fun res r₁ => r₁ = r ∧
            res.1 = { ({ to_ := id } : Message) with
              msgType := .MsgAppend
              index := wrappingSub pr.nextIdx 1
              logTerm := p
              entries := ents
              commit := r.raftLog.committed } ∧
            res.2.matched = pr.matched ∧ res.2.state = pr.state ∧
            res.2.recentActive = pr.recentActive ∧
            (res.2.nextIdx = pr.nextIdx ∨ ∃ e ∈ ents, res.2.nextIdx = e.index + 1)) ?_ ?_
          · cases hrun : prepareSendEntries { to_ := id } pr p ents r with
            | mk x r₁ es =>
                cases x with
                | error p => exact Does.of_error hrun trivial
                | ok x =>
                    obtain ⟨rfl, hx⟩ := prepareSendEntries_ok hrun
                    exact Does.of_ok hrun (accounted_still fun A _ h => h) ⟨rfl, hx⟩
          · rintro ⟨q, pr'⟩ r₁ ⟨rfl, rfl, hmatched, hstate, hactive, hnext⟩
            have hents : ∀ e ∈ ents, e.index ≤ r₁.raftLog.logical.lastIndex :=
              fun e he => index_le_of_entries hlog.wellFormed hpr.high her he
            refine Does.of_ok (a := pr') rfl (accounted_step fun A hA hkA h => ?_)
              ⟨⟨_, rfl⟩, fun A hkA => (hk A hkA).sent hents hmatched hstate hactive hnext⟩
            obtain ⟨A', hstep, h', hsent, hes⟩ := h.sendEntries hA hl (hk A hkA) htr her
            refine ⟨A', hstep, h'.post ?_⟩
            intro q hq
            obtain rfl := List.mem_singleton.mp hq
            refine ⟨h.id, nofun, nofun, fun _ => ?_, nofun, nofun⟩
            dsimp only
            rw [wrappingSub_of_le hpr.low]
            exact ⟨hsent, hes⟩

/-! ## §3  Heartbeats -/

theorem accounted_sendHeartbeat (hl : r.state = .Leader)
    (hk : ∀ A, K A → Known A r.term r.raftLog.logical.lastIndex id pr) (ctx : Option Bytes) :
    Does (accounted V b s v K hK) r (do
      sendHeartbeatVia enqueue id pr ctx
      pure pr : Call Panic Event (Raft MemStorage) Progress) (Told K r id) := by
  unfold sendHeartbeatVia
  refine Does.of_ok (a := pr) rfl (fun A hA hkA h => ?_) ⟨⟨_, rfl⟩, hk⟩
  obtain ⟨R, hR, _, _, hRlog, _⟩ := h.reigning hA hl
  have hknown := hk A hkA
  by_cases hlow : min pr.matched r.raftLog.committed ≤ R.log.base
  · -- below the base there is nothing to be told
    refine ⟨A, .refl, h.post ?_⟩
    intro q hq
    obtain rfl := List.mem_singleton.mp hq
    exact ⟨h.id, nofun, nofun, nofun, nofun, fun _ => ⟨R, hR, Or.inl hlow⟩⟩
  · have hin : min pr.matched r.raftLog.committed ≤ r.raftLog.logical.lastIndex :=
      Nat.le_trans (Nat.min_le_left _ _) hknown.inside
    obtain ⟨p, hp⟩ := exists_stampAt (Nat.le_of_lt (Nat.lt_of_not_le hlow))
      (hRlog.lastIndex_eq ▸ hin)
    obtain ⟨A', hstep, hrec, h', hsent⟩ :=
      h.send hA hl hR (n := 0) hp hin (Nat.min_le_right pr.matched r.raftLog.committed)
    rw [segment_zero] at hsent
    obtain ⟨R', hR', _⟩ := hrec.reign _ R hR
    refine ⟨A', .step .refl hstep, h'.post ?_⟩
    intro q hq
    obtain rfl := List.mem_singleton.mp hq
    refine ⟨h.id, nofun, nofun, nofun, nofun, fun _ => ⟨R', hR', Or.inr ⟨⟨p, hsent⟩, ?_⟩⟩⟩
    rcases hknown.matched with hzero | ⟨j, hj, hacked⟩
    · rw [hzero, Nat.zero_min] at hlow
      exact absurd (Nat.zero_le _) hlow
    · exact ⟨j, Nat.le_trans (Nat.min_le_left _ _) hj, hrec.acked _ _ _ hacked⟩

/-- A leader sends to all its peers. -/
theorem accounted_bcastAppend (hl : r.state = .Leader) :
    Does (accounted V b s v K hK) r (bcastAppendVia enqueue) (fun _ _ => True) :=
  accounted_forPeers hl fun _ _ _ _ _ _ hl hlog hpr hk => accounted_sendAppend hl hlog hpr hk

theorem accounted_bcastHeartbeat (hl : r.state = .Leader) :
    Does (accounted V b s v K hK) r (bcastHeartbeatVia enqueue) (fun _ _ => True) := by
  unfold bcastHeartbeatVia
  exact Does.read_bind (accounted_forPeers hl fun _ _ _ _ _ _ hl _ _ hk =>
    accounted_sendHeartbeat hl hk _)

/-- The commit index of a heartbeat is committed already, or lies inside what the node
has in common with its leader. -/
theorem Mirrors.heartbeat (h : Mirrors V A v r) (hA : Consensus.Sound (Quorum V) b s A)
    (hm : Posted V A k m) (ht : m.msgType = .MsgHeartbeat) (hto : m.to_ = v)
    (hterm : m.term = r.term) :
    m.commit ≤ r.raftLog.committed ∨ ∃ p, A.sent ⟨r.term, m.commit, p, [], m.commit⟩ ∧
      r.raftLog.logical.stampAt m.commit = some p := by
  obtain ⟨R, hR, hlow | ⟨⟨p, hp⟩, j, hj, hacked⟩⟩ := hm.heartbeat ht
  · left
    have hbase := (hA.reigned _ R hR).made.base.trans (hA.made v).base.symm
    rw [hbase] at hlow
    exact Nat.le_trans (Nat.le_trans hlow h.log.base_le)
      (Nat.le_trans h.sound.base_le h.sound.applied_le)
  · by_cases hnew : m.commit < r.raftLog.committed
    · exact Or.inl (Nat.le_of_lt hnew)
    right
    rw [hterm] at hp hR hacked
    rw [hto] at hacked
    obtain ⟨R', hR', hprev, _⟩ := hA.sent _ hp
    cases hR.symm.trans hR'
    have hsame := hA.current v j R (h.term.symm ▸ hacked) (h.term.symm ▸ hR)
    refine ⟨p, hp, ?_⟩
    rw [h.log.stampAt_eq (h.sound.base_le_of_new hnew)]
    exact hsame.symm.stampAt_eq hj hprev

/-- A follower commits what a heartbeat of its leader tells it. -/
theorem accounted_handlerHeartbeat (ht : m.msgType = .MsgHeartbeat) (hto : m.to_ = v)
    (hterm : m.term = r.term) (hrole : r.state = .FOLLOWER) :
    Does (accounted V b s v (fun A => Posted V A k m) fun _ _ hrec hm => hm.mono hrec) r
      (handlerHeartbeatVia enqueue m) (fun _ _ => True) := by
  unfold handlerHeartbeatVia
  refine Does.read_bind (Does.lift_bind fun log hlog => Does.modify_bind ?_ ?_)
  · intro A hA hm h
    obtain ⟨rfl, _⟩ := h.sound.wellFormed.presents.commitTo_ok hlog
    rcases h.heartbeat hA hm ht hto hterm with hle | ⟨p, hsent, hat⟩
    · rw [Nat.max_eq_left hle]
      exact ⟨A, .refl, { h with }⟩
    · obtain ⟨hsound, _⟩ := h.sound.commitTo hlog
      have hnothing : r.raftLog.logical.splice m.commit [] = r.raftLog.logical :=
        splice_of_match nofun
      obtain ⟨A', hstep, h', _⟩ := h.receive hA hrole hsent rfl hat hsound h.snapshot
        hnothing.symm (by rw [List.length_nil, Nat.add_zero, Nat.min_self])
      exact ⟨A', .step .refl hstep, h'⟩
  · refine Does.of_ok (a := ()) rfl (accounted_still fun A _ h => h.post ?_) trivial
    intro q hq
    obtain rfl := List.mem_singleton.mp hq
    exact .of_silent h.id (by simp)

/-! ## §4  What is noted of a peer -/

/-- The methods that change the progress of a peer, but for those that `send_append` calls. -/
inductive ProgressCall where
  | becomeProbe
  | becomeReplicate
  | snapshotFailure
  | maybeUpdate (n : ℕ)
  | maybeDecrTo (rejected last : ℕ)
  | resume
  | pause
  | freeTo (to_ : ℕ)
  | freeFirstOne

def ProgressCall.run (pr : Progress) : ProgressCall → Except Panic Progress
  | becomeProbe => pure pr.becomeProbe
  | becomeReplicate => pure pr.becomeReplicate
  | snapshotFailure => pure pr.snapshotFailure
  | maybeUpdate n => pure (pr.maybeUpdate n).2
  | maybeDecrTo rejected last => pure (pr.maybeDecrTo rejected last).2
  | resume => pure pr.resume
  | pause => pure pr.pause
  | freeTo to_ => do
      let ins ← pr.ins.freeTo to_
      pure { pr with ins := ins }
  | freeFirstOne => do
      let ins ← pr.ins.freeFirstOne
      pure { pr with ins := ins }

namespace Known

variable {t last n : ℕ}

/-- What concerns neither the cursors nor the state of a peer. -/
theorem of_cursors (h : Known A t last id pr) (hmatched : pr'.matched = pr.matched)
    (hnext : pr'.nextIdx = pr.nextIdx) (hstate : pr'.state = pr.state)
    (hactive : pr'.recentActive = pr.recentActive) : Known A t last id pr' :=
  h.sent (fun _ hno => absurd hno List.not_mem_nil) hmatched hstate hactive (Or.inl hnext)

/-- Probing or streaming to a peer begins behind what it is known to hold. -/
theorem restart (h : Known A t last id pr) :
    Known A t last id pr.becomeProbe ∧ Known A t last id pr.becomeReplicate := by
  have hprobe : pr.becomeProbe = { pr.resetState .Probe with nextIdx := pr.matched + 1 } := by
    rw [Progress.becomeProbe, if_neg h.entries]
    rfl
  rw [hprobe]
  have hlow : 1 ≤ pr.matched + 1 := Nat.succ_pos _
  have hhigh : pr.matched + 1 ≤ last + 1 := Nat.succ_le_succ h.inside
  constructor
  · exact ⟨h.inside, h.matched, hlow, hhigh, by simp [Progress.resetState], h.inactive⟩
  · exact ⟨h.inside, h.matched, hlow, hhigh, by
      simp [Progress.becomeReplicate, Progress.resetState], h.inactive⟩

/-- A refusal moves a peer back, whatever it says. -/
theorem maybeDecrTo (h : Known A t last id pr) (rejected last' : ℕ) :
    Known A t last id (pr.maybeDecrTo rejected last').2 := by
  have hlow := h.low
  have hhigh := h.high
  by_cases hstate : pr.state = .Replicate
  · rcases Progress.maybeDecrTo_replicating rejected last' hstate with heq | heq
    · rw [heq]
      exact h
    · rw [heq]
      exact { h with
        low := Nat.succ_pos _
        high := Nat.succ_le_succ h.inside }
  · by_cases hstale : pr.nextIdx - 1 = rejected
    · rw [Progress.maybeDecrTo_probed rejected last' hstate (by omega) hstale]
      exact { h with
        low := Nat.le_max_left _ _
        high := by
          show max 1 (min rejected (last' + 1)) ≤ _
          omega }
    · rw [Progress.maybeDecrTo_stale rejected last' hstate (Or.inr hstale)]
      exact h

/-- An answer moves a peer forward to what it has acknowledged. -/
theorem maybeUpdate (h : Known A t last id pr) (hacked : A.acked id t n) (hin : n ≤ last) :
    Known A t last id (pr.maybeUpdate n).2 := by
  obtain ⟨hmatched, hnext, hstate, _⟩ := Progress.maybeUpdate_cursors pr n
  refine ⟨?_, ?_, ?_, ?_, hstate ▸ h.entries,
    (pr.maybeUpdate_recentActive n).trans h.inactive⟩
  · rw [hmatched]
    exact Nat.max_le.mpr ⟨h.inside, hin⟩
  · rw [hmatched]
    rcases Nat.le_total pr.matched n with hle | hle
    · rw [Nat.max_eq_right hle]
      exact Or.inr ⟨_, Nat.le_refl _, hacked⟩
    · rw [Nat.max_eq_left hle]
      exact h.matched
  · rw [hnext]
    exact Nat.le_trans h.low (Nat.le_max_left _ _)
  · rw [hnext]
    exact Nat.max_le.mpr ⟨h.high, Nat.succ_le_succ hin⟩

/-- What a method makes of a peer is known, if what it is said to hold is acknowledged. -/
theorem run {c : ProgressCall} (h : Known A t last id pr)
    (hc : ∀ n, c = .maybeUpdate n → A.acked id t n ∧ n ≤ last) (hrun : c.run pr = .ok pr') :
    Known A t last id pr' := by
  cases c with
  | becomeProbe =>
      cases hrun
      exact h.restart.1
  | becomeReplicate =>
      cases hrun
      exact h.restart.2
  | maybeUpdate n =>
      cases hrun
      exact h.maybeUpdate (hc n rfl).1 (hc n rfl).2
  | maybeDecrTo rejected last' =>
      cases hrun
      exact h.maybeDecrTo rejected last'
  | snapshotFailure | resume | pause =>
      cases hrun
      exact h.of_cursors rfl rfl rfl rfl
  | freeTo to_ =>
      obtain ⟨ins, _, hrun⟩ := bind_eq_ok hrun
      cases hrun
      exact h.of_cursors rfl rfl rfl rfl
  | freeFirstOne =>
      obtain ⟨ins, _, hrun⟩ := bind_eq_ok hrun
      cases hrun
      exact h.of_cursors rfl rfl rfl rfl

end Known

/-- What a peer has acknowledged lies inside the leader's log. -/
theorem Mirrors.acked_le (h : Mirrors V A v r) (hA : Consensus.Sound (Quorum V) b s A)
    (hl : r.state = .Leader) {n : ℕ} (hacked : A.acked id r.term n) :
    n ≤ r.raftLog.logical.lastIndex := by
  obtain ⟨_, R, hR, hin⟩ := hA.acked _ _ _ hacked
  obtain ⟨R', hR', _, _, hRlog, _⟩ := h.reigning hA hl
  cases hR.symm.trans hR'
  rw [hRlog.lastIndex_eq]
  exact hin

theorem accounted_progress {c : ProgressCall} (hl : r.state = .Leader)
    (hc : ∀ n, c = .maybeUpdate n → ∀ A, K A → A.acked id r.term n) :
    Does (accounted V b s v K hK) r (withPeer id fun pr => Call.lift (c.run pr))
      (fun _ _ => True) := by
  refine accounted_withPeer hl fun K' hK' A₀ pr hA₀ h₀ hk₀ hk => ?_
  cases hrun : c.run pr with
  | error p => exact Does.panic p
  | ok pr' =>
      refine Does.of_ok (a := pr') rfl (accounted_still fun A _ h => h)
        ⟨⟨[], by rw [List.append_nil]⟩, fun A hA => (hk A hA).2.run (fun n hn => ?_) hrun⟩
      exact ⟨hc n hn A (hk A hA).1, h₀.acked_le hA₀ hl (hc n hn A₀ (hk A₀ hk₀).1)⟩

end RsRaft
