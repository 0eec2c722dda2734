import RsRaft.Lib.Call
import RsRaft.Progress
import RsRaft.RaftLog
import RsRaft.ReadOnly

/-!
# `raft.rs`: the node

Every method of `Raft` is a `Call` on the node. The trace records what
statements about whole executions talk about: a message handed to `send`, an
assignment to `term` and `vote`, an assignment to `state`, an entry into
`become_leader`, a vote of the node for itself. Logging is left out, and with it
`tag`, the parameters used only in log lines, and the fields nothing reads
(`read_state`, `skip_bcast_commit`).

§1 the node · §2 sending · §3 progress and commit · §4 role changes ·
§5 campaigning · §6 handlers · §7 stepping and ticking.
-/

namespace RsRaft

/-- The bytes of an ASCII literal. -/
def asciiBytes (s : String) : Bytes := s.toList.map fun c => UInt8.ofNat c.toNat

def CAMPAIGN_PRE_ELECTION : Bytes := asciiBytes "CampaignPreElection"

def CAMPAIGN_ELECTION : Bytes := asciiBytes "CampaignElection"

def CAMPAIGN_TRANSFER : Bytes := asciiBytes "CampaignTransfer"

inductive StateRole where
  | FOLLOWER
  | Candidate
  | Leader
  | PreCandidate
deriving DecidableEq, Repr

def INVALID_ID : ℕ := 0

/-- What an observer of a call sees, in the order it happens. -/
inductive Event where
  /-- `send` was entered with this message. -/
  | handed (msg : Message)
  /-- `term` or `vote` was assigned; both values afterwards. -/
  | hardState (term vote : ℕ)
  /-- `become_leader` was entered at this term. -/
  | leads (term : ℕ)
  /-- `state` was assigned. -/
  | role (state : StateRole)
  /-- `campaign` registered the node's own vote. -/
  | selfVote
deriving DecidableEq, Repr

/-! ## §1  The node -/

/-- `learnerId` is the field `reset` assigns although the struct does not
declare it; `rng` is the stream the random timeouts are drawn from. -/
structure Raft (T : Type) where
  id : ℕ
  state : StateRole := .FOLLOWER
  term : ℕ := 0
  vote : ℕ := 0
  raftLog : RaftLog T
  maxInflight : ℕ := 256
  maxMsgSize : ℕ := 0
  prs : Option ProgressSet
  isLearner : Bool := false
  votes : AList (fun _ : ℕ => Bool) := ∅
  msgs : List Message := []
  leaderId : ℕ := 0
  learnerId : ℕ := 0
  leadTransferee : Option ℕ := none
  pendingConfIndex : ℕ := 0
  readOnly : ReadOnly := {}
  electionElapsed : ℕ := 0
  heartbeatElapsed : ℕ := 0
  checkQuorum : Bool := false
  preVote : Bool := false
  heartbeatTimeout : ℕ := 2
  electionTimeout : ℕ := 20
  randomizedElectionTimeout : ℕ := 0
  minElectionTimeout : ℕ := 20
  maxElectionTimeout : ℕ := 40
  rng : ℕ → ℕ := fun _ => 0

def newMessage (to_ : ℕ) (fieldType : MessageType) ( from_ : Option ℕ) : Message :=
  { to_ := to_, msgType := fieldType, from_ := from_.getD 0 }

def voteRespMsgType (msgType : MessageType) : Except Panic MessageType :=
  match msgType with
  | .MsgRequestVote => .ok .MsgRequestVoteResponse
  | .MsgRequestPreVote => .ok .MsgRequestPreVoteResponse
  | t => .error (.notVoteMessage t)

namespace Raft

variable {T : Type}

def hardState (self : Raft T) : HardState :=
  { term := self.term, vote := self.vote, commit := self.raftLog.committed }

def takePrs : Call Panic Event (Raft T) ProgressSet := do
  match (← Call.read).prs with
  | none => Call.panic .unwrapNone
  | some prs => do
      Call.modify fun self => { self with prs := none }
      pure prs

def setPrs (prs : ProgressSet) : Call Panic Event (Raft T) Unit :=
  Call.modify fun self => { self with prs := some prs }

/-- `prs()` and `mut_prs()`; a mutation is stored back with `setPrs`. -/
def getPrs : Call Panic Event (Raft T) ProgressSet := do
  match (← Call.read).prs with
  | none => Call.panic .unwrapNone
  | some prs => pure prs

def promotable : Call Panic Event (Raft T) Bool := do
  let prs ← getPrs
  pure (decide ((← Call.read).id ∈ prs.voterIds))

def passElectionTimeout (self : Raft T) : Bool :=
  decide (self.electionElapsed ≥ self.randomizedElectionTimeout)

/-! ## §2  Sending -/

def isVoteMessage (t : MessageType) : Bool :=
  t == .MsgRequestVote || t == .MsgRequestPreVote
    || t == .MsgRequestVoteResponse || t == .MsgRequestPreVoteResponse

/-- The term test is the same for both kinds of messages, so a message without
a term always panics. -/
def send (msg : Message) : Call Panic Event (Raft T) Unit := do
  Call.emit (.handed msg)
  let self ← Call.read
  let msg := { msg with from_ := self.id }
  if isVoteMessage msg.msgType then
    if msg.term = 0 then Call.panic (.termNotSet msg.msgType)
    else Call.modify fun self => { self with msgs := self.msgs ++ [msg] }
  else if msg.term = 0 then Call.panic (.termNotSet msg.msgType)
  else
    let msg :=
      if msg.msgType ≠ .MsgPropose ∧ msg.msgType ≠ .MsgReadIndex then
        { msg with term := self.term }
      else msg
    Call.modify fun self => { self with msgs := self.msgs ++ [msg] }

section Append

variable [Storage T]

def prepareSendSnapshot (msg : Message) (pr : Progress) :
    Call Panic Event (Raft T) (Bool × Message × Progress) := do
  if ¬ pr.recentActive then pure (false, msg, pr)
  else
    let self ← Call.read
    let msg := { msg with msgType := .MsgSnapshot }
    match ← Call.lift self.raftLog.snapshot with
    | .error (.Store .SnapshotTemporarilyUnavailable) => pure (false, msg, pr)
    | .error e => Call.panic (.unexpectedError e)
    | .ok snapshot =>
        if snapshot.metadata.index = 0 then Call.panic .emptySnapshot
        else
          pure (true, { msg with snapshot := snapshot },
            pr.becomeSnapshot snapshot.metadata.index)

omit [Storage T] in
def prepareSendEntries (msg : Message) (pr : Progress) (term : ℕ) (ents : List Entry) :
    Call Panic Event (Raft T) (Message × Progress) := do
  let self ← Call.read
  let msg :=
    { msg with
      msgType := .MsgAppend
      index := wrappingSub pr.nextIdx 1
      logTerm := term
      entries := ents
      commit := self.raftLog.committed }
  match ents.getLast? with
  | none => pure (msg, pr)
  | some e =>
      match pr.state with
      | .Replicate => do
          let pr := pr.optimisticUpdate e.index
          let ins ← Call.lift (pr.ins.add e.index)
          pure (msg, { pr with ins := ins })
      | .Probe => pure (msg, pr.pause)
      | .Snapshot => Call.panic .unhandledState

variable [ProtoMessage Entry]

/-- `send_append`, handing its message to `send`. -/
def sendAppendVia (send : Message → Call Panic Event (Raft T) Unit) (to_ : ℕ)
    (pr : Progress) : Call Panic Event (Raft T) Progress := do
  if pr.isPaused then pure pr
  else
    let self ← Call.read
    let term ← Call.lift (self.raftLog.term (wrappingSub pr.nextIdx 1))
    let ents ← Call.lift (self.raftLog.entries pr.nextIdx self.maxMsgSize)
    let msg : Message := { to_ := to_ }
    match term, ents with
    | .ok term, .ok ents =>
        let r ← prepareSendEntries msg pr term ents
        send r.1
        pure r.2
    | _, _ =>
        let r ← prepareSendSnapshot msg pr
        if ¬ r.1 then pure r.2.2
        else
          send r.2.1
          pure r.2.2

def sendAppend (to_ : ℕ) (pr : Progress) : Call Panic Event (Raft T) Progress :=
  sendAppendVia send to_ pr

/-- The `iter_mut` loop over the peers other than the node itself. -/
def forPeers (f : ℕ → Progress → Call Panic Event (Raft T) Progress) :
    Call Panic Event (Raft T) Unit := do
  let selfId := (← Call.read).id
  let prs ← takePrs
  let progress ← prs.progress.forValuesM fun id pr => if id ≠ selfId then f id pr else pure pr
  setPrs { prs with progress := progress }

def bcastAppend : Call Panic Event (Raft T) Unit := forPeers sendAppend

end Append

def sendHeartbeat (to_ : ℕ) (pr : Progress) (ctx : Option Bytes) :
    Call Panic Event (Raft T) Unit := do
  let self ← Call.read
  let msg : Message :=
    { to_ := to_
      msgType := .MsgHeartbeat
      commit := min pr.matched self.raftLog.committed
      context := ctx.getD [] }
  send msg

def bcastHeartbeatWithCtx (ctx : Option Bytes) : Call Panic Event (Raft T) Unit :=
  forPeers fun id pr => do
    sendHeartbeat id pr ctx
    pure pr

def bcastHeartbeat : Call Panic Event (Raft T) Unit := do
  bcastHeartbeatWithCtx (← Call.read).readOnly.lastPendingRequestCtx

/-! ## §3  Progress and commit -/

section Log

variable [Storage T]

def maybeCommit : Call Panic Event (Raft T) Bool := do
  let prs ← getPrs
  let mci ← Call.lift prs.maximalCommittedIndex
  let self ← Call.read
  let r ← Call.lift (self.raftLog.maybeCommit mci self.term)
  Call.modify fun self => { self with raftLog := r.2 }
  pure r.1

/-- Replace the node's own progress, `get_mut(self_id).unwrap()`. -/
def updateOwnProgress (f : Progress → Progress) : Call Panic Event (Raft T) Unit := do
  let self ← Call.read
  let prs ← getPrs
  match prs.get self.id with
  | none => Call.panic .unwrapNone
  | some pr => setPrs (prs.put self.id (f pr))

def appendEntry (ents : List Entry) : Call Panic Event (Raft T) Unit := do
  let self ← Call.read
  let li ← Call.lift self.raftLog.lastIndex
  let ents := ents.mapIdx fun i e => { e with term := self.term, index := li + 1 + i }
  let r ← Call.lift (self.raftLog.append ents)
  Call.modify fun self => { self with raftLog := r.2 }
  updateOwnProgress fun pr => (pr.maybeUpdate r.1).2
  let _ ← maybeCommit
  pure ()

/-! ## §4  Role changes -/

omit [Storage T] in
def resetRandomizedElectionTimeout : Call Panic Event (Raft T) Unit := do
  let self ← Call.read
  if self.minElectionTimeout < self.maxElectionTimeout then
    Call.modify fun self =>
      { self with
        randomizedElectionTimeout :=
          self.minElectionTimeout
            + self.rng 0 % (self.maxElectionTimeout - self.minElectionTimeout)
        rng := fun n => self.rng (n + 1) }
  else Call.panic .emptyRange

omit [Storage T] in
def abortLeaderTransfer : Call Panic Event (Raft T) Unit :=
  Call.modify fun self => { self with leadTransferee := none }

/-- The progress of every peer after a reset. -/
def resetProgress (prs : ProgressSet) (selfId lastIndex : ℕ) : ProgressSet :=
  { prs with
    progress := prs.progress.mapValues fun id pr =>
      let pr := pr.reset (lastIndex + 1)
      if id = selfId then { pr with matched := lastIndex } else pr }

def reset (term : ℕ) : Call Panic Event (Raft T) Unit := do
  let self ← Call.read
  if self.term ≠ term then do
    Call.modify fun self => { self with term := term, vote := INVALID_ID }
    Call.emit (.hardState term INVALID_ID)
  -- the source clears `learner_id` here, not `leader_id`
  Call.modify fun self => { self with learnerId := INVALID_ID }
  resetRandomizedElectionTimeout
  Call.modify fun self => { self with electionElapsed := 0, heartbeatElapsed := 0 }
  abortLeaderTransfer
  Call.modify fun self =>
    { self with
      votes := ∅
      pendingConfIndex := 0
      readOnly := ReadOnly.new self.readOnly.option }
  let self ← Call.read
  let lastIndex ← Call.lift self.raftLog.lastIndex
  let prs ← getPrs
  setPrs (resetProgress prs self.id lastIndex)

omit [Storage T] in
/-- Assign `state`. -/
def setState (state : StateRole) : Call Panic Event (Raft T) Unit := do
  Call.modify fun self => { self with state := state }
  Call.emit (.role state)

def becomeFollower (term leaderId : ℕ) : Call Panic Event (Raft T) Unit := do
  reset term
  Call.modify fun self => { self with leaderId := leaderId }
  setState .FOLLOWER

def becomeCandidate : Call Panic Event (Raft T) Unit := do
  let self ← Call.read
  if self.state = .Leader then Call.panic .assertion
  else
    reset (self.term + 1)
    Call.modify fun self => { self with vote := self.id }
    Call.emit (.hardState (self.term + 1) self.id)
    setState .Candidate

omit [Storage T] in
def becomePreCandidate : Call Panic Event (Raft T) Unit := do
  let self ← Call.read
  if self.state = .Leader then Call.panic .assertion
  else
    setState .PreCandidate
    Call.modify fun self => { self with votes := ∅, leaderId := INVALID_ID }

def becomeLeader : Call Panic Event (Raft T) Unit := do
  let self ← Call.read
  Call.emit (.leads self.term)
  if self.state = .Leader then Call.panic .assertion
  else
    reset self.term
    Call.modify fun self => { self with leaderId := self.id }
    setState .Leader
    updateOwnProgress Progress.becomeReplicate
    let self ← Call.read
    let lastIndex ← Call.lift self.raftLog.lastIndex
    Call.modify fun self => { self with pendingConfIndex := lastIndex }
    appendEntry [{}]

/-! ## §5  Campaigning -/

def numPendingConf (ents : List Entry) : ℕ :=
  ents.countP fun e => e.entryType == .EntryConfChange

omit [Storage T] in
def registerVote (id : ℕ) (vote : Bool) : Call Panic Event (Raft T) Unit :=
  Call.modify fun self => { self with votes := self.votes.orInsert id vote }

omit [Storage T] in
/-- The verdict on the votes registered so far. -/
def pollVotes : Call Panic Event (Raft T) CandidacyStatus := do
  let prs ← getPrs
  pure (prs.candidacyStatus (← Call.read).votes)

/-- One vote request of `campaign`. -/
def requestVote (campaignType : Bytes) (voteMsg : MessageType) (term id : ℕ) :
    Call Panic Event (Raft T) Unit := do
  let self ← Call.read
  let index ← Call.lift self.raftLog.lastIndex
  let logTerm ← Call.lift self.raftLog.lastTerm
  let msg := newMessage id voteMsg none
  let msg := { msg with term := term, index := index, logTerm := logTerm }
  let msg :=
    if campaignType = CAMPAIGN_TRANSFER then { msg with context := campaignType } else msg
  send msg

/-- The vote requests of `campaign`, with the progress set taken out meanwhile. -/
def requestVotes (campaignType : Bytes) (voteMsg : MessageType) (term : ℕ) :
    Call Panic Event (Raft T) Unit := do
  let selfId := (← Call.read).id
  let prs ← takePrs
  (prs.voterIds.keys.filter (· ≠ selfId)).forM (requestVote campaignType voteMsg term)
  setPrs prs

omit [Storage T] in
/-- `register_vote(self_id, acceptance)` of `campaign`. -/
def voteForSelf : Call Panic Event (Raft T) Unit := do
  let self ← Call.read
  registerVote self.id true
  Call.emit .selfVote

/-- `campaign` up to what follows when the node's own vote already decides. -/
def campaignRound (campaignType : Bytes) (elected : Call Panic Event (Raft T) Unit) :
    Call Panic Event (Raft T) Unit := do
  if campaignType = CAMPAIGN_PRE_ELECTION then becomePreCandidate else becomeCandidate
  let self ← Call.read
  voteForSelf
  match ← pollVotes with
  | .Elected => elected
  | _ =>
      if campaignType = CAMPAIGN_PRE_ELECTION then
        requestVotes campaignType .MsgRequestPreVote (self.term + 1)
      else requestVotes campaignType .MsgRequestVote self.term

/-- The recursive call of the pre-election is the only one there is. -/
def campaign (campaignType : Bytes) : Call Panic Event (Raft T) Unit :=
  campaignRound campaignType <|
    if campaignType = CAMPAIGN_PRE_ELECTION then campaignRound CAMPAIGN_ELECTION becomeLeader
    else becomeLeader

/-! ## §6  Handlers -/

/-- `handler_append_entries`, handing its reply to `send`. The previous entry
is matched against the term of the message, not against its `log_term`. -/
def handlerAppendEntriesVia (send : Message → Call Panic Event (Raft T) Unit)
    (msg : Message) : Call Panic Event (Raft T) Unit := do
  let self ← Call.read
  let toSend : Message := { to_ := msg.from_, msgType := .MsgAppendResponse }
  if msg.index < self.raftLog.committed then
    send { toSend with index := self.raftLog.committed }
  else
    -- `msg.term`, where the term of the previous entry belongs
    let r ← Call.lift (self.raftLog.maybeAppend msg.index msg.term msg.commit msg.entries)
    Call.modify fun self => { self with raftLog := r.2 }
    match r.1 with
    | some msgLastIndex => send { toSend with index := msgLastIndex }
    | none =>
        let last ← Call.lift r.2.lastIndex
        send { toSend with index := msg.index, reject := true, rejectHint := last }

def handlerAppendEntries (msg : Message) : Call Panic Event (Raft T) Unit :=
  handlerAppendEntriesVia send msg

def handlerHeartbeat (msg : Message) : Call Panic Event (Raft T) Unit := do
  let self ← Call.read
  let log ← Call.lift (self.raftLog.commitTo msg.commit)
  Call.modify fun self => { self with raftLog := log }
  send { to_ := msg.from_, msgType := .MsgHeartbeatResponse, context := msg.context }

omit [Storage T] in
def setProgress (id matched nextIdx : ℕ) (isLearner : Bool) :
    Call Panic Event (Raft T) Unit := do
  let self ← Call.read
  let pr := { Progress.new nextIdx self.maxInflight with matched := matched }
  let prs ← getPrs
  let r ← Call.lift (if isLearner then prs.insertLearner id pr else prs.insertVoter id pr)
  setPrs r.2
  match r.1 with
  | .ok () => pure ()
  | .error e => Call.panic (.unwrapErr e)

/-- The progress of one member of a snapshot's configuration. -/
def restoreProgress (isLearner : Bool) (n : ℕ) : Call Panic Event (Raft T) Unit := do
  let self ← Call.read
  let last ← Call.lift self.raftLog.lastIndex
  let nextIndex := last + 1
  -- a restored member is taken to match as far as the log reaches
  if n = self.id then do
    Call.modify fun self => { self with isLearner := isLearner }
    setProgress n (nextIndex - 1) nextIndex isLearner
  else setProgress n 0 nextIndex isLearner

def restoreRaft (snap : Snapshot) : Call Panic Event (Raft T) (Option Bool) := do
  let self ← Call.read
  let snapMeta := snap.metadata
  if ← Call.lift (self.raftLog.matchTerm snapMeta.index snapMeta.term) then
    let log ← Call.lift (self.raftLog.commitTo snapMeta.index)
    Call.modify fun self => { self with raftLog := log }
    pure (some false)
  else
    let prs ← getPrs
    -- a voter does not let a snapshot make it a learner
    if prs.progress.size ≠ 0 ∧ ¬ self.isLearner ∧ self.id ∈ snapMeta.confState.learners then
      pure (some false)
    else
      let nodes := snapMeta.confState.nodes
      let learners := snapMeta.confState.learners
      setPrs (ProgressSet.withCapacity nodes.length learners.length)
      nodes.forM (restoreProgress false)
      learners.forM (restoreProgress true)
      pure none

def restore (snap : Snapshot) : Call Panic Event (Raft T) Bool := do
  let self ← Call.read
  if snap.metadata.index < self.raftLog.committed then pure false
  else
    match ← restoreRaft snap with
    | some b => pure b
    | none => do
        Call.modify fun self => { self with raftLog := self.raftLog.restore snap }
        pure true

def handlerSnapshot (msg : Message) : Call Panic Event (Raft T) Unit := do
  let restored ← restore msg.snapshot
  let self ← Call.read
  let toSend : Message := { to_ := msg.from_, msgType := .MsgAppendResponse }
  if restored then
    let last ← Call.lift self.raftLog.lastIndex
    send { toSend with index := last }
  else send { toSend with index := self.raftLog.committed }

/-! ## §7  Stepping and ticking -/

variable [ProtoMessage Entry]

def stepLeader (_msg : Message) : Call Panic Event (Raft T) (Result Unit) :=
  Call.panic .unimplemented

def stepFollower (_msg : Message) : Call Panic Event (Raft T) (Result Unit) :=
  Call.panic .unimplemented

/-- The vote response arm of `step_candidate`. -/
def stepVoteResponse (msg : Message) : Call Panic Event (Raft T) Unit := do
  let self ← Call.read
  if (self.state = .PreCandidate ∧ msg.msgType ≠ .MsgRequestPreVoteResponse)
      ∨ (self.state = .Candidate ∧ msg.msgType ≠ .MsgRequestVoteResponse) then pure ()
  else
    let acceptance := !msg.reject
    registerVote msg.from_ acceptance
    match ← pollVotes with
    | .Elected =>
        if self.state = .PreCandidate then campaign CAMPAIGN_ELECTION
        else
          becomeLeader
          bcastAppend
    | .Ineligible => becomeFollower self.term INVALID_ID
    | .Eligible => pure ()

/-- The `debug_assert`s on the message's term are absent in a release build. -/
def stepCandidate (msg : Message) : Call Panic Event (Raft T) (Result Unit) := do
  match msg.msgType with
  | .MsgPropose => pure (.error .ProposalDropped)
  | .MsgAppend =>
      becomeFollower msg.term msg.from_
      handlerAppendEntries msg
      pure (.ok ())
  | .MsgHeartbeat =>
      becomeFollower msg.term msg.from_
      handlerHeartbeat msg
      pure (.ok ())
  | .MsgSnapshot =>
      -- the leader id is set to the term of the message
      let self ← Call.read
      becomeFollower self.term msg.term
      handlerSnapshot msg
      pure (.ok ())
  | .MsgRequestPreVoteResponse =>
      stepVoteResponse msg
      pure (.ok ())
  | .MsgRequestVoteResponse =>
      stepVoteResponse msg
      pure (.ok ())
  | _ => pure (.ok ())

/-- The `MsgHup` arm of `step`; only `tick_election` asks whether the node is
promotable before it comes here. -/
def stepHup : Call Panic Event (Raft T) Unit := do
  let self ← Call.read
  if self.state ≠ .Leader then
    let log := self.raftLog
    let ents ← Call.lift (unwrap (log.slice (log.applied + 1) (log.committed + 1) NO_LIMIT))
    let n := numPendingConf ents
    -- a committed configuration change that is not applied yet
    if n ≠ 0 ∧ log.committed > log.applied then pure ()
    else if self.preVote then campaign CAMPAIGN_PRE_ELECTION
    else campaign CAMPAIGN_ELECTION
  else pure ()

omit [ProtoMessage Entry] in
/-- `can_vote && is_up_to_date(..)`: the log is consulted only if `can_vote`. -/
def approvesVote (self : Raft T) (msg : Message) : Except Panic Bool :=
  if self.vote = msg.from_
      ∨ (self.vote = INVALID_ID ∧ self.leaderId = INVALID_ID)
      ∨ (msg.msgType = .MsgRequestPreVote ∧ msg.term > self.term) then
    self.raftLog.isUpToDate msg.index msg.logTerm
  else pure false

omit [ProtoMessage Entry] in
/-- The vote request arm of `step`. -/
def stepVoteRequest (msg : Message) : Call Panic Event (Raft T) Unit := do
  let self ← Call.read
  let approves ← Call.lift (self.approvesVote msg)
  let respType ← Call.lift (voteRespMsgType msg.msgType)
  let toSend := newMessage msg.from_ respType none
  if approves then
    send { toSend with reject := false, term := msg.term }
    -- a pre-vote is granted without being recorded
    if msg.msgType = .MsgRequestVote then
      Call.modify fun self => { self with electionElapsed := 0, vote := msg.from_ }
      Call.emit (.hardState self.term msg.from_)
    else pure ()
  else send { toSend with reject := true, term := self.term }

/-- The last arm of `step`, which asks for the role. -/
def stepByRole (msg : Message) : Call Panic Event (Raft T) (Result Unit) := do
  match (← Call.read).state with
  | .PreCandidate => stepCandidate msg
  | .Candidate => stepCandidate msg
  | .FOLLOWER => stepFollower msg
  | .Leader => stepLeader msg

/-- The arms of `step` behind the comparison of terms. -/
def dispatch (msg : Message) : Call Panic Event (Raft T) (Result Unit) := do
  match msg.msgType with
  | .MsgHup =>
      stepHup
      pure (.ok ())
  | .MsgRequestVote =>
      stepVoteRequest msg
      pure (.ok ())
  | .MsgRequestPreVote =>
      stepVoteRequest msg
      pure (.ok ())
  | _ => stepByRole msg

omit [Storage T] [ProtoMessage Entry] in
/-- The answer to a message of a lower term. -/
def stepLowerTerm (msg : Message) : Call Panic Event (Raft T) Unit := do
  let self ← Call.read
  if (self.checkQuorum ∨ self.preVote)
      ∧ (msg.msgType = .MsgHeartbeat ∨ msg.msgType = .MsgAppend) then
    send (newMessage msg.from_ .MsgAppendResponse none)
  else if msg.msgType = .MsgRequestPreVote then
    let toSend := newMessage msg.from_ .MsgRequestPreVoteResponse none
    send { toSend with term := self.term, reject := true }
  else pure ()

def step (msg : Message) : Call Panic Event (Raft T) (Result Unit) := do
  let self ← Call.read
  if msg.term = 0 then dispatch msg
  else if msg.term > self.term then
    if msg.msgType = .MsgRequestVote ∨ msg.msgType = .MsgRequestPreVote then
      -- the lease test only decides about a log line: the return is outside of it
      pure (.ok ())
    -- a granted pre-vote carries the term that was asked for, which nobody has entered yet
    else if msg.msgType = .MsgRequestPreVote
        ∨ (msg.msgType = .MsgRequestPreVoteResponse ∧ ¬ msg.reject) then dispatch msg
    else
      if msg.msgType = .MsgAppend ∨ msg.msgType = .MsgHeartbeat
          ∨ msg.msgType = .MsgSnapshot then becomeFollower msg.term msg.from_
      else becomeFollower msg.term INVALID_ID
      dispatch msg
  else if msg.term < self.term then
    stepLowerTerm msg
    pure (.ok ())
  else dispatch msg

def tickElection : Call Panic Event (Raft T) Bool := do
  Call.modify fun self => { self with electionElapsed := self.electionElapsed + 1 }
  let self ← Call.read
  if ¬ self.passElectionTimeout then pure false
  else
    let isPromotable ← promotable
    if ¬ isPromotable then pure false
    else
      Call.modify fun self => { self with electionElapsed := 0 }
      let _ ← step (newMessage INVALID_ID .MsgHup (some self.id))
      pure true

/-- The part of `tick_heartbeat` done once per election timeout. -/
def tickElectionTimeout : Call Panic Event (Raft T) Bool := do
  Call.modify fun self => { self with electionElapsed := 0 }
  let self ← Call.read
  let hasReady := self.checkQuorum
  let _ ←
    (if hasReady then step (newMessage INVALID_ID .MsgCheckQuorum (some self.id))
      else pure (.ok ()) : Call Panic Event (Raft T) (Result Unit))
  let self ← Call.read
  (if self.state = .Leader ∧ self.leadTransferee.isSome then abortLeaderTransfer
    else pure () : Call Panic Event (Raft T) Unit)
  pure hasReady

def tickHeartbeat : Call Panic Event (Raft T) Bool := do
  Call.modify fun self =>
    { self with
      heartbeatElapsed := self.heartbeatElapsed + 1
      electionElapsed := self.electionElapsed + 1 }
  let self ← Call.read
  let hasReady ←
    (if self.electionElapsed ≥ self.electionTimeout then tickElectionTimeout
      else pure false : Call Panic Event (Raft T) Bool)
  let self ← Call.read
  if self.state ≠ .Leader then pure hasReady
  else if self.heartbeatElapsed ≥ self.heartbeatTimeout then
    Call.modify fun self => { self with heartbeatElapsed := 0 }
    let _ ← step (newMessage INVALID_ID .MsgBeat (some self.id))
    pure true
  else pure hasReady

def tick : Call Panic Event (Raft T) Bool := do
  match (← Call.read).state with
  | .FOLLOWER => tickElection
  | .PreCandidate => tickElection
  | .Candidate => tickElection
  | .Leader => tickHeartbeat

end Log

end Raft

end RsRaft
