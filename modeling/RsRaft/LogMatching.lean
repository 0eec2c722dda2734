import RsRaft.Cluster
import RsRaft.RaftLogView

/-!
# Log matching

The replication protocol alone: leaders append to their own logs and send parts
of them, the others handle what was ever sent, and terms only rise. The handler
compares the entry in front of a batch with the term of the message, and entries
of that term are found at its leader only. So a log never holds an entry its
node did not append itself, and with one leader in each term two logs that share
an entry are the same log.

§1 what a leader does · §2 what is sent · §3 what is received · §4 runs.
-/

namespace RsRaft

open PlainLog

namespace Raft

open Call RaftLog

variable {T : Type} [Storage T] {r r' r'' : Raft T}

/-! ## §1  What a leader does -/

/-- Only entries of the node's term are added to the log, and only by a leader. -/
structure Extends (r r' : Raft T) : Prop where
  term : r'.term = r.term
  msgs : r'.msgs = r.msgs
  role : r'.state = r.state ∨ r'.state = .Leader
  log : Unstored r.raftLog → Unstored r'.raftLog ∧
    ∃ es, r'.raftLog.unstable.entries = r.raftLog.unstable.entries ++ es ∧
      ∀ e ∈ es, e.term = r.term ∧ r'.state = .Leader

theorem Extends.of_same (hterm : r'.term = r.term) (hmsgs : r'.msgs = r.msgs)
    (hrole : r'.state = r.state ∨ r'.state = .Leader)
    (hstore : r'.raftLog.store = r.raftLog.store)
    (hunstable : r'.raftLog.unstable = r.raftLog.unstable) : Extends r r' where
  term := hterm
  msgs := hmsgs
  role := hrole
  log h := ⟨h.congr hstore hunstable, [], by rw [hunstable, List.append_nil], by simp⟩

theorem Extends.trans (h : Extends r r') (h' : Extends r' r'') : Extends r r'' where
  term := h'.term.trans h.term
  msgs := h'.msgs.trans h.msgs
  role := by
    rcases h'.role with heq | hlead
    · rw [heq]
      exact h.role
    · exact Or.inr hlead
  log := by
    intro hlog
    obtain ⟨hlog', es, hes, hown⟩ := h.log hlog
    obtain ⟨hlog'', es', hes', hown'⟩ := h'.log hlog'
    refine ⟨hlog'', es ++ es', by rw [hes', hes, List.append_assoc], ?_⟩
    intro e he
    rcases List.mem_append.mp he with he | he
    · obtain ⟨hterm, hlead⟩ := hown e he
      refine ⟨hterm, ?_⟩
      rcases h'.role with heq | hlead'
      · rw [heq, hlead]
      · exact hlead'
    · obtain ⟨hterm, hlead⟩ := hown' e he
      exact ⟨hterm.trans h.term, hlead⟩

/-- A call that extends the log in the node's own term. -/
def extending (T : Type) [Storage T] : Behaviour Event (Raft T) where
  runs r es r' := Extends r r' ∧ ∀ t, Event.leads t ∈ es → t = r.term
  stops r es r' := Extends r r' ∧ ∀ t, Event.leads t ∈ es → t = r.term
  refl _ := ⟨.of_same rfl rfl (Or.inl rfl) rfl rfl, by simp⟩
  stops_refl _ := ⟨.of_same rfl rfl (Or.inl rfl) rfl rfl, by simp⟩
  trans := by
    rintro r r' r'' es es' ⟨h, hes⟩ ⟨h', hes'⟩
    refine ⟨h.trans h', ?_⟩
    intro t ht
    rcases List.mem_append.mp ht with ht | ht
    · exact hes t ht
    · exact (hes' t ht).trans h.term
  stops_after := by
    rintro r r' r'' es es' ⟨h, hes⟩ ⟨h', hes'⟩
    refine ⟨h.trans h', ?_⟩
    intro t ht
    rcases List.mem_append.mp ht with ht | ht
    · exact hes t ht
    · exact (hes' t ht).trans h.term

theorem does_extending_updateOwnProgress (f : Progress → Progress) (r : Raft T) :
    Does (extending T) r (updateOwnProgress f) (fun _ r' => r'.state = r.state) := by
  unfold updateOwnProgress
  refine Does.read_bind (does_getPrs_bind fun p hp => ?_)
  cases hget : p.get r.id with
  | none => exact Does.panic _
  | some pr =>
      exact Does.of_ok (a := ()) rfl ⟨.of_same rfl rfl (Or.inl rfl) rfl rfl, by simp⟩ rfl

theorem does_extending_maybeCommit (r : Raft T) :
    Does (extending T) r maybeCommit (fun _ _ => True) := by
  unfold maybeCommit
  refine does_getPrs_bind fun p _ => Does.lift_bind fun mci _ => ?_
  refine Does.read_bind (Does.lift_bind fun a ha => ?_)
  obtain ⟨hstore, hunstable⟩ := maybeCommit_frame ha
  exact Does.modify_bind ⟨.of_same rfl rfl (Or.inl rfl) hstore hunstable, by simp⟩
    (Does.pure trivial)

/-- A leader appends entries of its own term behind its log. -/
theorem does_extending_appendEntry (hrole : r.state = .Leader) (ents : List Entry) :
    Does (extending T) r (appendEntry ents) (fun _ _ => True) := by
  unfold appendEntry
  refine Does.read_bind (Does.lift_bind fun li hli => Does.lift_bind fun a ha => ?_)
  refine Does.modify_bind ⟨?_, by simp⟩ ?_
  · refine ⟨rfl, rfl, Or.inl rfl, ?_⟩
    intro hlog
    rw [hlog.lastIndex] at hli
    cases hli
    -- the entries are renumbered to continue the log
    obtain ⟨hlog', hentries⟩ := hlog.append
      (by
        intro k e he
        rw [List.getElem?_mapIdx] at he
        obtain ⟨d, _, rfl⟩ := Option.map_eq_some_iff.mp he
        rfl)
      ha
    refine ⟨hlog', _, hentries, ?_⟩
    intro e he
    obtain ⟨k, hk, rfl⟩ := List.mem_mapIdx.mp he
    exact ⟨rfl, hrole⟩
  · refine Does.bind (does_extending_updateOwnProgress _ _) fun _ r' _ => ?_
    exact Does.bind (does_extending_maybeCommit r') fun _ _ _ => Does.pure trivial

/-- Entering `become_leader` is the only entry there is. -/
theorem does_extending_becomeLeader (r : Raft T) :
    Does (extending T) r becomeLeader (fun _ _ => True) := by
  by_cases hrole : r.state = .Leader
  · refine Does.of_error (p := .assertion) (t := r) (l := [.leads r.term]) ?_ ?_
    · unfold becomeLeader
      rw [read_bind_run, emit_bind_run, ite_run, if_pos hrole]
      rfl
    · exact ⟨.of_same rfl rfl (Or.inl rfl) rfl rfl, by simp⟩
  have hev : resetEvents r.term r.term = [] := if_pos rfl
  rcases reset_cases r.term r with ⟨li, prs, hli, hprs, hrun⟩ |
      ⟨p, r', hrun, hr'⟩
  · rw [hev] at hrun
    refine Does.of_run_eq (y := (fun _ => ⟨.ok (), { r.resetTo r.term li prs with
        leaderId := r.id, state := .Leader }, [.leads r.term, .role .Leader]⟩) >>= fun _ => _)
      (becomeLeader_head hrole hrun) ?_
    refine Does.bind (Q := fun _ r' => r'.state = .Leader) ?_ fun _ r' hlead => ?_
    · refine Does.of_ok rfl ⟨.of_same rfl rfl (Or.inr rfl) rfl rfl, ?_⟩ rfl
      intro t ht
      simpa using ht
    · refine Does.bind (does_extending_updateOwnProgress _ _) fun _ r'' hstate => ?_
      refine Does.read_bind (Does.lift_bind fun last _ => ?_)
      refine Does.modify_bind ⟨.of_same rfl rfl (Or.inl rfl) rfl rfl, by simp⟩ ?_
      exact does_extending_appendEntry (r := { r'' with pendingConfIndex := last })
        (hstate.trans hlead) _
  · rw [hev] at hrun
    refine Does.of_error (p := p) (t := r') (l := [.leads r.term]) ?_ ?_
    · unfold becomeLeader
      rw [read_bind_run, emit_bind_run, ite_run, if_neg hrole, bind_error hrun]
      rfl
    · refine ⟨.of_same hr'.term hr'.msgs (Or.inl hr'.state) ?_ ?_, ?_⟩
      · rw [hr'.raftLog]
      · rw [hr'.raftLog]
      intro t ht
      simpa using ht

/-! ## §2  What is sent -/

omit [Storage T] in
/-- `send`, taken to stamp its message and put it into the queue. -/
def enqueue (msg : Message) : Call Panic Event (Raft T) Unit :=
  Call.modify fun self =>
    { self with msgs := self.msgs ++ [{ msg with from_ := self.id, term := self.term }] }

omit [Storage T] in
/-- A call that only puts messages satisfying `P` into the queue. -/
def mailing (T : Type) (P : Message → Prop) : Behaviour Event (Raft T) where
  runs r es r' := es = [] ∧ ∃ qs, (∀ q ∈ qs, P q) ∧ r' = { r with msgs := r.msgs ++ qs }
  stops r es r' := es = [] ∧ ∃ qs, (∀ q ∈ qs, P q) ∧ r' = { r with msgs := r.msgs ++ qs }
  refl r := ⟨rfl, [], by simp, by simp⟩
  stops_refl r := ⟨rfl, [], by simp, by simp⟩
  trans := by
    rintro r _ _ _ _ ⟨rfl, qs, hqs, rfl⟩ ⟨rfl, qs', hqs', rfl⟩
    exact ⟨rfl, qs ++ qs', List.forall_mem_append.mpr ⟨hqs, hqs'⟩, by simp⟩
  stops_after := by
    rintro r _ _ _ _ ⟨rfl, qs, hqs, rfl⟩ ⟨rfl, qs', hqs', rfl⟩
    exact ⟨rfl, qs ++ qs', List.forall_mem_append.mpr ⟨hqs, hqs'⟩, by simp⟩

omit [Storage T] in
theorem does_enqueue {P : Message → Prop} {q : Message}
    (h : P { q with from_ := r.id, term := r.term }) {Q : Unit → Raft T → Prop}
    (hQ : ∀ r', Q () r') : Does (mailing T P) r (enqueue q) Q :=
  Does.of_ok rfl ⟨rfl, [_], by simpa using h, rfl⟩ (hQ _)

omit [Storage T] in
theorem does_mailing_prepareSendEntries {P : Message → Prop} (msg : Message) (pr : Progress)
    (term : ℕ) (ents : List Entry) :
    Does (mailing T P) r (prepareSendEntries msg pr term ents)
      (fun res r' => r' = r ∧ res.1.entries = ents) := by
  unfold prepareSendEntries
  apply Does.read_bind
  cases ents.getLast? with
  | none => exact Does.pure ⟨rfl, rfl⟩
  | some e =>
      dsimp only
      cases pr.state with
      | Probe => exact Does.pure ⟨rfl, rfl⟩
      | Replicate => exact Does.lift_bind fun ins _ => Does.pure ⟨rfl, rfl⟩
      | Snapshot => exact Does.panic _

variable [ProtoMessage Entry]

/-- A leader sends entries of its own log under its own term. -/
theorem does_sendAppendVia (hlog : Unstored r.raftLog) (to_ : ℕ) {pr : Progress}
    (hlow : 1 ≤ pr.nextIdx) (hhigh : pr.nextIdx ≤ r.raftLog.unstable.entries.length + 1) :
    Does (mailing T fun q => q.term = r.term ∧
        ∀ e ∈ q.entries, e ∈ r.raftLog.unstable.entries) r
      (sendAppendVia enqueue to_ pr) (fun _ _ => True) := by
  obtain ⟨n, hents, _⟩ := hlog.presents.entries_unstable (i := pr.nextIdx)
    (by rw [hlog.offset]; exact hlow)
    (by rw [PlainLog.lastIndex, whole, Nat.zero_add]; exact hhigh) r.maxMsgSize
  unfold sendAppendVia
  refine Does.ite (fun _ => Does.pure trivial) fun _ => ?_
  refine Does.read_bind (Does.lift_bind fun t ht => Does.lift_bind fun es hes => ?_)
  rw [hents] at hes
  cases hes
  rw [hlog.presents.term] at ht
  cases ht
  dsimp only
  refine Does.bind (does_mailing_prepareSendEntries _ _ _ _) ?_
  rintro res _ ⟨rfl, hres⟩
  refine Does.bind (Q := fun _ _ => True) (does_enqueue ⟨rfl, ?_⟩ fun _ => trivial)
    fun _ _ _ => Does.pure trivial
  intro e he
  rw [hres] at he
  exact List.mem_of_mem_drop (List.mem_of_mem_take he)

/-! ## §3  What is received -/

omit [ProtoMessage Entry] in
/-- The handler changes the log as `maybe_append` does and queues its reply. -/
theorem handlerAppendEntriesVia_frame (m : Message) (r : Raft T) :
    (handlerAppendEntriesVia enqueue m r).trace = [] ∧
    (handlerAppendEntriesVia enqueue m r).state.term = r.term ∧
    (handlerAppendEntriesVia enqueue m r).state.state = r.state ∧
    (∃ qs, (handlerAppendEntriesVia enqueue m r).state.msgs = r.msgs ++ qs ∧
      ∀ q ∈ qs, q.msgType ≠ .MsgAppend) ∧
    ((handlerAppendEntriesVia enqueue m r).state.raftLog = r.raftLog ∨
      ∃ a, r.raftLog.maybeAppend m.index m.term m.commit m.entries =
        .ok (a, (handlerAppendEntriesVia enqueue m r).state.raftLog)) := by
  unfold handlerAppendEntriesVia
  rw [read_bind_run, ite_run]
  split
  · exact ⟨rfl, rfl, rfl, ⟨[_], rfl, by simp⟩, Or.inl rfl⟩
  · cases hrun : r.raftLog.maybeAppend m.index m.term m.commit m.entries with
    | error p =>
        rw [lift_error_bind_run]
        exact ⟨rfl, rfl, rfl, ⟨[], (List.append_nil _).symm, by simp⟩, Or.inl rfl⟩
    | ok res =>
        obtain ⟨a, log'⟩ := res
        rw [lift_ok_bind_run, modify_bind_run]
        cases a with
        | some n => exact ⟨rfl, rfl, rfl, ⟨[_], rfl, by simp⟩, Or.inr ⟨_, rfl⟩⟩
        | none =>
            dsimp only
            cases hli : log'.lastIndex with
            | error p =>
                rw [lift_error_bind_run]
                exact ⟨rfl, rfl, rfl, ⟨[], (List.append_nil _).symm, by simp⟩, Or.inr ⟨_, rfl⟩⟩
            | ok li =>
                rw [lift_ok_bind_run]
                exact ⟨rfl, rfl, rfl, ⟨[_], rfl, by simp⟩, Or.inr ⟨_, rfl⟩⟩

end Raft

namespace RaftLog

variable {T : Type} [Storage T] {log log' : RaftLog T} {es : List Entry}

/-- Where every term matches there is no conflict. -/
theorem findConflict_of_match (h : ∀ e ∈ es, log.matchTerm e.index e.term = .ok true) :
    log.findConflict es = .ok 0 := by
  induction es with
  | nil => rfl
  | cons e es ih =>
      rw [findConflict, h e List.mem_cons_self, ok_bind, if_pos rfl]
      exact ih fun d hd => h d (List.mem_cons_of_mem _ hd)

/-- In an empty log every term reads `0`. -/
theorem Unstored.matchTerm_zero (h : Unstored log) (hnil : log.unstable.entries = [])
    (i : ℕ) : log.matchTerm i 0 = .ok true := by
  rw [h.presents.matchTerm]
  by_cases hi : i = 0
  · simp [stampAt, whole, hi]
  · simp [stampAt, entryAt, whole, hi, hnil]

/-- A batch of a term the log holds no entry of is not put into the log; in term
`0` the log is empty and the batch matches what is not there. -/
theorem Unstored.maybeAppend_foreign (h : Unstored log) {i t c : ℕ} {a : Option ℕ}
    (hown : ∀ e ∈ log.unstable.entries, e.term ≠ t)
    (hzero : t = 0 → log.unstable.entries = [] ∧ ∀ e ∈ es, e.term = 0)
    (hrun : log.maybeAppend i t c es = .ok (a, log')) :
    log'.store = log.store ∧ log'.unstable = log.unstable := by
  by_cases ht : t = 0
  · -- before the first term every comparison is `0` with `0`, and there is nothing to place
    obtain ⟨hnil, hes⟩ := hzero ht
    subst ht
    have hconflict : log.findConflict es = .ok 0 := by
      apply findConflict_of_match
      intro e he
      rw [hes e he]
      exact h.matchTerm_zero hnil e.index
    unfold maybeAppend at hrun
    rw [h.matchTerm_zero hnil, ok_bind, if_pos rfl, hconflict, ok_bind, if_pos rfl,
      pure_eq_ok, ok_bind] at hrun
    obtain ⟨log'', hcommit, hrun⟩ := bind_eq_ok hrun
    cases hrun
    exact commitTo_frame hcommit
  · -- in a real term the previous entry cannot match: the log has none of that term
    have hmismatch : (log.whole.stampAt i).getD 0 ≠ t := by
      intro hread
      cases hstamp : log.whole.stampAt i with
      | none =>
          rw [hstamp, Option.getD_none] at hread
          exact ht hread.symm
      | some s =>
          rw [hstamp, Option.getD_some] at hread
          subst hread
          by_cases hi : i = 0
          · rw [hi, show (0 : ℕ) = log.whole.base from rfl, stampAt_base] at hstamp
            cases hstamp
            exact ht rfl
          · rw [stampAt_of_gt (show log.whole.base < i from Nat.pos_of_ne_zero hi)] at hstamp
            obtain ⟨e, he, rfl⟩ := Option.map_eq_some_iff.mp hstamp
            exact hown e (mem_tail_iff.mpr ⟨i, he⟩) rfl
    rw [h.presents.maybeAppend_refuse hmismatch] at hrun
    cases hrun
    exact ⟨rfl, rfl⟩

end RaftLog

/-! ## §4  Runs -/

namespace Replication

open Call Raft RaftLog

variable {T : Type} [Storage T]

/-- Nobody leads, nothing is queued, and the logs were created over empty stores. -/
structure Initial (C : Cluster T) : Prop where
  idle : ∀ n M, C n = some M → M.raft.state ≠ .Leader
  quiet : ∀ n M, C n = some M → M.raft.msgs = [] ∧ M.trace = []
  empty : ∀ n M, C n = some M → Storage.Holds M.raft.raftLog.store ⟨0, 0, []⟩ ∧
    RaftLog.new M.raft.raftLog.store = .ok M.raft.raftLog

section

variable [ProtoMessage Entry]

/-- What member `M` at `n` may do, and the member afterwards. -/
inductive Act (C : Cluster T) (n : ℕ) (M : Member T) : Member T → Prop
  /-- Enter `become_leader`; nobody else ever did in this term. -/
  | lead (hfirst : ∀ k K, C k = some K → Event.leads M.raft.term ∈ K.trace → k = n) :
      Act C n M (M.after (becomeLeader M.raft))
  /-- Append a batch as the leader. -/
  | append (hrole : M.raft.state = .Leader) (ents : List Entry) :
      Act C n M (M.after (appendEntry ents M.raft))
  /-- Send a part of the leader's log to a peer. -/
  | send (hrole : M.raft.state = .Leader) (to_ : ℕ) (pr : Progress) {li : ℕ}
      (hli : M.raft.raftLog.lastIndex = .ok li) (hlow : 1 ≤ pr.nextIdx)
      (hhigh : pr.nextIdx ≤ li + 1) : Act C n M (M.after (sendAppendVia enqueue to_ pr M.raft))
  /-- Handle an append message of the own term that anybody ever sent. -/
  | receive {k : ℕ} {K : Member T} {m : Message} (hk : C k = some K) (hm : m ∈ K.raft.msgs)
      (ht : m.msgType = .MsgAppend) (hterm : m.term = M.raft.term)
      (hrole : M.raft.state ≠ .Leader) :
      Act C n M (M.after (handlerAppendEntriesVia enqueue m M.raft))
  /-- Move to a later term and stop leading, by whatever call. -/
  | advance {α : Type} {o : Outcome Panic Event (Raft T) α}
      (hterm : M.raft.term < o.state.term) (hrole : o.state.state ≠ .Leader)
      (hlog : o.state.raftLog = M.raft.raftLog) (hmsgs : o.state.msgs = M.raft.msgs)
      (hleads : ∀ t, Event.leads t ∉ o.trace) : Act C n M (M.after o)

inductive Step (C : Cluster T) : Cluster T → Prop
  | act {n : ℕ} {M M' : Member T} (hn : C n = some M) (h : Act C n M M') :
      Step C (Function.update C n (some M'))

inductive Reachable (C₀ : Cluster T) : Cluster T → Prop
  | refl : Reachable C₀ C₀
  | step {C C' : Cluster T} (h : Reachable C₀ C) (h' : Step C C') : Reachable C₀ C'

end

/-- A member's log holds what it appended itself while it led. -/
structure Own (M : Member T) : Prop where
  log : Unstored M.raft.raftLog
  bound : ∀ e ∈ M.raft.raftLog.unstable.entries, e.term ≤ M.raft.term
  current : ∀ e ∈ M.raft.raftLog.unstable.entries, e.term = M.raft.term →
    M.raft.state = .Leader
  led : ∀ e ∈ M.raft.raftLog.unstable.entries, Event.leads e.term ∈ M.trace
  leads : M.raft.state = .Leader → Event.leads M.raft.term ∈ M.trace
  sent : ∀ q ∈ M.raft.msgs, q.msgType = .MsgAppend → ∀ e ∈ q.entries, e.term ≤ q.term

/-- Nobody led a term somebody else led. -/
structure Safe (C : Cluster T) : Prop where
  own : ∀ n M, C n = some M → Own M
  unique : ∀ n k M K t, C n = some M → C k = some K → Event.leads t ∈ M.trace →
    Event.leads t ∈ K.trace → n = k

variable {C C' C₀ : Cluster T} {M M' : Member T} {n : ℕ}

/-- A node that becomes a candidate advances. -/
theorem Act.of_becomeCandidate [ProtoMessage Entry]
    (hrun : (becomeCandidate M.raft).value = .ok ()) :
    Act C n M (M.after (becomeCandidate M.raft)) := by
  by_cases hrole : M.raft.state = .Leader
  · unfold becomeCandidate at hrun
    rw [read_bind_run, ite_run, if_pos hrole] at hrun
    cases hrun
  rcases reset_cases (M.raft.term + 1) M.raft with
    ⟨li, prs, _, _, hreset⟩ | ⟨p, r'', hreset, _⟩
  · have hok := becomeCandidate_ok hrole hreset
    apply Act.advance
    · rw [hok]
      exact Nat.lt_succ_self _
    · rw [hok]
      exact fun h => by cases h
    · rw [hok]
      rfl
    · rw [hok]
      rfl
    · rw [hok]
      intro t' ht'
      simp at ht'
  · unfold becomeCandidate at hrun
    rw [read_bind_run, ite_run, if_neg hrole, bind_error hreset] at hrun
    cases hrun

theorem Initial.safe (h : Initial C) : Safe C where
  own n M hn := by
    obtain ⟨hholds, hnew⟩ := h.empty n M hn
    obtain ⟨hlog, hnil⟩ := unstored_new hholds hnew
    refine ⟨hlog, ?_, ?_, ?_, fun hrole => absurd hrole (h.idle n M hn), ?_⟩
    · rw [hnil]
      simp
    · rw [hnil]
      simp
    · rw [hnil]
      simp
    · rw [(h.quiet n M hn).1]
      simp
  unique n k M K t hn _ hM _ := by
    rw [(h.quiet n M hn).2] at hM
    cases hM

/-- Leading and appending: the new entries are the leader's own. -/
theorem Own.extends (h : Own M) {r' : Raft T} {es : List Event} (hext : Extends M.raft r')
    (hlead : r'.state = .Leader → Event.leads M.raft.term ∈ M.trace ++ es)
    (h' : M'.raft = r') (htrace : M'.trace = M.trace ++ es) : Own M' := by
  subst h'
  obtain ⟨hlog, ents, hents, hown⟩ := hext.log h.log
  refine ⟨hlog, ?_, ?_, ?_, ?_, ?_⟩
  · intro e he
    rw [hents] at he
    rw [hext.term]
    rcases List.mem_append.mp he with he | he
    · exact h.bound e he
    · exact Nat.le_of_eq (hown e he).1
  · intro e he hcur
    rw [hents] at he
    rw [hext.term] at hcur
    rcases List.mem_append.mp he with he | he
    · rcases hext.role with heq | hleader
      · rw [heq]
        exact h.current e he hcur
      · exact hleader
    · exact (hown e he).2
  · intro e he
    rw [hents] at he
    rw [htrace]
    rcases List.mem_append.mp he with he | he
    · exact List.mem_append_left _ (h.led e he)
    · obtain ⟨hterm, hleader⟩ := hown e he
      rw [hterm]
      exact hlead hleader
  · intro hleader
    rw [hext.term, htrace]
    exact hlead hleader
  · rw [hext.msgs]
    exact h.sent

/-- A message handled is not put into the log. -/
theorem Own.receive (h : Own M) {m : Message} (hm : ∀ e ∈ m.entries, e.term ≤ m.term)
    (hterm : m.term = M.raft.term) (hrole : M.raft.state ≠ .Leader) :
    Own (M.after (handlerAppendEntriesVia enqueue m M.raft)) := by
  obtain ⟨htrace, hterm', hstate', ⟨qs, hmsgs, hqs⟩, hlog⟩ :=
    handlerAppendEntriesVia_frame m M.raft
  -- a node that does not lead its term holds no entry of it
  have hforeign : ∀ e ∈ M.raft.raftLog.unstable.entries, e.term ≠ m.term := by
    intro e he heq
    exact hrole (h.current e he (heq.trans hterm))
  have hzero : m.term = 0 → M.raft.raftLog.unstable.entries = [] ∧ ∀ e ∈ m.entries, e.term = 0 := by
    intro hz
    refine ⟨List.eq_nil_iff_forall_not_mem.mpr ?_, ?_⟩
    · intro e he
      have hle := h.bound e he
      exact hforeign e he (by omega)
    · intro e he
      have hle := hm e he
      omega
  have hframe : (handlerAppendEntriesVia enqueue m M.raft).state.raftLog.store =
        M.raft.raftLog.store ∧
      (handlerAppendEntriesVia enqueue m M.raft).state.raftLog.unstable =
        M.raft.raftLog.unstable := by
    rcases hlog with heq | ⟨a, hrun⟩
    · rw [heq]
      exact ⟨rfl, rfl⟩
    · exact h.log.maybeAppend_foreign hforeign hzero hrun
  have htrace' : (M.after (handlerAppendEntriesVia enqueue m M.raft)).trace = M.trace := by
    show M.trace ++ _ = M.trace
    rw [htrace, List.append_nil]
  constructor
  · exact h.log.congr hframe.1 hframe.2
  · rw [Member.after_raft, hframe.2, hterm']
    exact h.bound
  · rw [Member.after_raft, hframe.2, hterm', hstate']
    exact h.current
  · rw [Member.after_raft, hframe.2, htrace']
    exact h.led
  · rw [Member.after_raft, hstate', hterm', htrace']
    exact h.leads
  · rw [Member.after_raft, hmsgs]
    intro q hq ht
    rcases List.mem_append.mp hq with hq | hq
    · exact h.sent q hq ht
    · exact absurd ht (hqs q hq)

/-- A part of the own log is sent. -/
theorem Own.send (h : Own M) {qs : List Message} {r' : Raft T}
    (hqs : ∀ q ∈ qs, q.term = M.raft.term ∧
      ∀ e ∈ q.entries, e ∈ M.raft.raftLog.unstable.entries)
    (hr' : r' = { M.raft with msgs := M.raft.msgs ++ qs }) (hraft : M'.raft = r')
    (htrace : M'.trace = M.trace) : Own M' := by
  subst hr'
  constructor
  · rw [hraft]
    exact h.log
  · rw [hraft]
    exact h.bound
  · rw [hraft]
    exact h.current
  · rw [hraft, htrace]
    exact h.led
  · rw [hraft, htrace]
    exact h.leads
  · rw [hraft]
    intro q hq ht e he
    rcases List.mem_append.mp hq with hq | hq
    · exact h.sent q hq ht e he
    · obtain ⟨hterm, hents⟩ := hqs q hq
      rw [hterm]
      exact h.bound e (hents e he)

/-- In a later term no entry is of the present one any more. -/
theorem Own.advance (h : Own M) {α : Type} {o : Outcome Panic Event (Raft T) α}
    (hterm : M.raft.term < o.state.term) (hrole : o.state.state ≠ .Leader)
    (hlog : o.state.raftLog = M.raft.raftLog) (hmsgs : o.state.msgs = M.raft.msgs) :
    Own (M.after o) := by
  refine ⟨?_, ?_, ?_, ?_, fun hlead => absurd hlead hrole, ?_⟩
  · rw [Member.after_raft, hlog]
    exact h.log
  · rw [Member.after_raft, hlog]
    intro e he
    exact Nat.le_trans (h.bound e he) (Nat.le_of_lt hterm)
  · rw [Member.after_raft, hlog]
    intro e he heq
    have hle := h.bound e he
    omega
  · rw [Member.after_raft, hlog]
    intro e he
    exact List.mem_append_left _ (h.led e he)
  · rw [Member.after_raft, hmsgs]
    exact h.sent

omit [Storage T] in
/-- A term led after a call was led before it, or is led in it. -/
theorem leads_after {α : Type} {o : Outcome Panic Event (Raft T) α} {P : Prop} {t : ℕ}
    (h : Event.leads t ∈ (M.after o).trace) (hnew : Event.leads t ∈ o.trace → P) :
    Event.leads t ∈ M.trace ∨ P := by
  rcases List.mem_append.mp h with hold | hlead
  · exact Or.inl hold
  · exact Or.inr (hnew hlead)

/-- A member's acts keep its log its own, and the only term it may come to lead
is its present one, which nobody else led. -/
theorem Own.act [ProtoMessage Entry] (h : Own M) (hall : ∀ k K, C k = some K → Own K)
    (hact : Act C n M M') :
    Own M' ∧ ∀ t, Event.leads t ∈ M'.trace → Event.leads t ∈ M.trace ∨
      ∀ k K, C k = some K → Event.leads t ∈ K.trace → k = n := by
  have hext : ∀ {α : Type} {x : Call Panic Event (Raft T) α} {Q : α → Raft T → Prop},
      Does (extending T) M.raft x Q → Extends M.raft (x M.raft).state ∧
        ∀ t, Event.leads t ∈ (x M.raft).trace → t = M.raft.term := fun hx =>
    hx.elim (fun _ _ hr => hr) (fun _ _ hs => hs)
  cases hact with
  | lead hfirst =>
      obtain ⟨hextends, hleads⟩ := hext (does_extending_becomeLeader M.raft)
      obtain ⟨es, htrace⟩ := becomeLeader_trace M.raft
      refine ⟨h.extends hextends (fun _ => ?_) rfl rfl, ?_⟩
      · rw [htrace]
        exact List.mem_append_right _ List.mem_cons_self
      · intro t ht
        refine leads_after ht fun hlead => ?_
        rw [hleads t hlead]
        exact hfirst
  | append hrole ents =>
      obtain ⟨hextends, hleads⟩ := hext (does_extending_appendEntry hrole ents)
      refine ⟨h.extends hextends (fun _ => List.mem_append_left _ (h.leads hrole)) rfl rfl, ?_⟩
      intro t ht
      refine (leads_after ht fun hlead => ?_).elim Or.inl Or.inl
      rw [hleads t hlead]
      exact h.leads hrole
  | send hrole to_ pr hli hlow hhigh =>
      rw [h.log.lastIndex] at hli
      cases hli
      obtain ⟨htrace, qs, hqs, hr'⟩ :=
        (does_sendAppendVia h.log to_ hlow hhigh).elim (fun _ _ hr => hr)
          (fun _ _ hs => hs)
      have htrace' : (M.after (sendAppendVia enqueue to_ pr M.raft)).trace = M.trace := by
        show M.trace ++ _ = M.trace
        rw [htrace, List.append_nil]
      refine ⟨h.send hqs hr' rfl htrace', ?_⟩
      intro t ht
      rw [htrace'] at ht
      exact Or.inl ht
  | receive hk hm ht hterm hrole =>
      refine ⟨h.receive ((hall _ _ hk).sent _ hm ht) hterm hrole, ?_⟩
      intro t ht
      refine leads_after ht fun hlead => ?_
      rw [(handlerAppendEntriesVia_frame _ M.raft).1] at hlead
      cases hlead
  | advance hterm hrole hlog hmsgs hleads =>
      refine ⟨h.advance hterm hrole hlog hmsgs, ?_⟩
      exact fun t ht => leads_after ht fun hlead => absurd hlead (hleads t)

/-- One act of one member. -/
theorem Safe.step [ProtoMessage Entry] (h : Safe C) (hstep : Step C C') : Safe C' := by
  obtain ⟨hn, hact⟩ := hstep
  rename_i n M M'
  obtain ⟨hown, hleads⟩ := (h.own n M hn).act h.own hact
  -- a term that `n` has come to lead is led by nobody else
  have hnew : ∀ k K t, C k = some K → Event.leads t ∈ M'.trace → Event.leads t ∈ K.trace →
      k = n := by
    intro k K t hk hM' hK
    rcases hleads t hM' with hold | hfirst
    · exact h.unique k n K M t hk hn hK hold
    · exact hfirst k K hk hK
  constructor
  · intro k K hk
    by_cases hkn : k = n
    · subst hkn
      obtain rfl : M' = K := by simpa using hk
      exact hown
    · exact h.own k K (by simpa [hkn] using hk)
  · intro k l K L t hk hl hK hL
    by_cases hkn : k = n
    · by_cases hln : l = n
      · rw [hkn, hln]
      · subst hkn
        obtain rfl : M' = K := by simpa using hk
        exact (hnew l L t (by simpa [hln] using hl) hK hL).symm
    · by_cases hln : l = n
      · subst hln
        obtain rfl : M' = L := by simpa using hl
        exact hnew k K t (by simpa [hkn] using hk) hL hK
      · exact h.unique k l K L t (by simpa [hkn] using hk) (by simpa [hln] using hl) hK hL

theorem Reachable.safe [ProtoMessage Entry] (h₀ : Initial C₀) (h : Reachable C₀ C) :
    Safe C := by
  induction h with
  | refl => exact h₀.safe
  | step _ hstep ih => exact ih.step hstep

/-- Two logs that hold an entry of one term at one index are the same up to it. -/
theorem log_matching [ProtoMessage Entry] (h₀ : Initial C₀) (h : Reachable C₀ C)
    {n₁ n₂ : ℕ} {M₁ M₂ : Member T} (hn₁ : C n₁ = some M₁) (hn₂ : C n₂ = some M₂) :
    M₁.raft.raftLog.Presents M₁.raft.raftLog.whole ∧
    M₂.raft.raftLog.Presents M₂.raft.raftLog.whole ∧
    ∀ i e₁ e₂, M₁.raft.raftLog.whole.entryAt i = some e₁ →
      M₂.raft.raftLog.whole.entryAt i = some e₂ → e₁.term = e₂.term →
      ∀ j ≤ i, M₁.raft.raftLog.whole.entryAt j = M₂.raft.raftLog.whole.entryAt j := by
  have hsafe := h.safe h₀
  have hown₁ := hsafe.own n₁ M₁ hn₁
  have hown₂ := hsafe.own n₂ M₂ hn₂
  refine ⟨hown₁.log.presents, hown₂.log.presents, ?_⟩
  intro i e₁ e₂ h₁ h₂ hterm j _
  have hled₁ := hown₁.led e₁ (mem_tail_iff.mpr ⟨i, h₁⟩)
  have hled₂ := hown₂.led e₂ (mem_tail_iff.mpr ⟨i, h₂⟩)
  rw [← hterm] at hled₂
  -- both members led the term of the shared entry, so they are one member
  obtain rfl := hsafe.unique n₁ n₂ M₁ M₂ _ hn₁ hn₂ hled₁ hled₂
  rw [hn₁] at hn₂
  cases hn₂
  rfl

/-! Two nodes in term `1`: the first leads and sends its first entry, the second
handles the message, refuses it, and leads term `2`. -/

def first : Member MemStorage := { raft := { memNode 1 [1, 2] [] with term := 1 } }

def second : Member MemStorage := { raft := { memNode 2 [1, 2] [] with term := 1 } }

def leading : Member MemStorage := first.after (becomeLeader first.raft)

/-- The second in the first's record of its peers. -/
def peer : Progress := { Progress.new 1 256 with nextIdx := 1 }

def sending : Member MemStorage := leading.after (sendAppendVia enqueue 2 peer leading.raft)

def appendMessage : Message :=
  { msgType := .MsgAppend
    to_ := 2
    from_ := 1
    term := 1
    entries := [{ term := 1, index := 1 }] }

def refusing : Member MemStorage :=
  second.after (handlerAppendEntriesVia enqueue appendMessage second.raft)

def candidate : Member MemStorage := refusing.after (becomeCandidate refusing.raft)

def succeeding : Member MemStorage := candidate.after (becomeLeader candidate.raft)

def twoNodes : Cluster MemStorage :=
  Function.update (Function.update (fun _ => none) 1 (some first)) 2 (some second)

def twoLeaders : Cluster MemStorage :=
  Function.update (Function.update (Function.update (Function.update (Function.update twoNodes
    1 (some leading)) 1 (some sending)) 2 (some refusing)) 2 (some candidate))
    2 (some succeeding)

theorem twoNodes_initial : Initial twoNodes := by
  have hcases : ∀ n M, twoNodes n = some M → M = first ∨ M = second := by
    intro n M h
    by_cases h2 : n = 2
    · exact Or.inr (by simpa [twoNodes, h2] using h.symm)
    · by_cases h1 : n = 1
      · exact Or.inl (by simpa [twoNodes, h1] using h.symm)
      · simp [twoNodes, h1, h2] at h
  constructor
  · intro n M h
    rcases hcases n M h with rfl | rfl <;> exact fun hlead => by cases hlead
  · intro n M h
    rcases hcases n M h with rfl | rfl <;> exact ⟨rfl, rfl⟩
  · intro n M h
    rcases hcases n M h with rfl | rfl <;> exact ⟨MemStorage.holds_empty, rfl⟩

theorem twoLeaders_reachable : Reachable twoNodes twoLeaders := by
  have hlead : Act twoNodes 1 first leading := by
    apply Act.lead
    intro k K hk hled
    by_cases h2 : k = 2
    · obtain rfl : second = K := by simpa [twoNodes, h2] using hk
      cases hled
    · by_cases h1 : k = 1
      · exact h1
      · simp [twoNodes, h1, h2] at hk
  have hsend : ∀ C, Act C 1 leading sending := fun C =>
    .send (by decide +kernel) 2 peer
      (show leading.raft.raftLog.lastIndex = .ok 1 by decide +kernel) (by decide) (by decide)
  have hreceive : ∀ C : Cluster MemStorage, C 1 = some sending → Act C 2 second refusing :=
    fun C hC => .receive hC (m := appendMessage) (by decide +kernel) rfl rfl (by decide)
  have hstand : ∀ C, Act C 2 refusing candidate := fun C =>
    .of_becomeCandidate (by decide +kernel)
  have hsucceed : ∀ C : Cluster MemStorage, (∀ k K, C k = some K → k = 2 ∨ K = sending) →
      Act C 2 candidate succeeding := by
    intro C hC
    apply Act.lead
    intro k K hk hled
    rcases hC k K hk with heq | rfl
    · exact heq
    · exact absurd hled (by decide +kernel)
  refine .step (.step (.step (.step (.step .refl (.act ?_ hlead)) (.act ?_ (hsend _)))
    (.act ?_ (hreceive _ ?_))) (.act ?_ (hstand _))) (.act ?_ (hsucceed _ ?_))
  · simp [twoNodes]
  · simp
  · simp [twoNodes]
  · simp
  · simp
  · simp
  · intro k K hk
    by_cases h2 : k = 2
    · exact Or.inl h2
    · by_cases h1 : k = 1
      · exact Or.inr (by simpa [h1] using hk.symm)
      · simp [twoNodes, h1, h2] at hk

/-- Both logs hold an entry at index `1`, of different terms. -/
theorem log_matching_twoLeaders :
    sending.raft.raftLog.Presents sending.raft.raftLog.whole ∧
    succeeding.raft.raftLog.Presents succeeding.raft.raftLog.whole ∧
    ∀ i e₁ e₂, sending.raft.raftLog.whole.entryAt i = some e₁ →
      succeeding.raft.raftLog.whole.entryAt i = some e₂ → e₁.term = e₂.term →
      ∀ j ≤ i, sending.raft.raftLog.whole.entryAt j =
        succeeding.raft.raftLog.whole.entryAt j := by
  have hfirst : twoLeaders 1 = some sending := by simp [twoLeaders]
  have hsecond : twoLeaders 2 = some succeeding := by simp [twoLeaders]
  exact log_matching twoNodes_initial twoLeaders_reachable hfirst hsecond

end Replication

end RsRaft
