import RsRaft.Lib.KeyedQueue
import RsRaft.ReadOnly

/-!
# The queue of read-index requests

`ReadOnly` keeps the contexts of the pending requests in a queue and their
statuses in a map. The two stay in step, so `advance` neither panics nor
unwraps a `None`, and the pair is a first-in-first-out queue of requests from
which `advance` takes a beginning.

§1 the calls and their journal · §2 one call · §3 the run.
-/

namespace RsRaft

open KeyedQueue

/-! ## §1  The calls and their journal -/

inductive ReadCall where
  | addRequest (index : ℕ) (msg : Message)
  | recvAck (msg : Message)
  | advance (msg : Message)

/-- What has happened so far: the state, the requests accepted, and the statuses
`advance` returned, each in the order it happened. -/
structure ReadJournal where
  ro : ReadOnly
  accepted : List (ℕ × Message) := []
  returned : List ReadIndexStatus := []

/-- The context of a request is the data of its first entry. -/
def Message.requestCtx (msg : Message) : Bytes := (msg.entries.headD {}).data

namespace ReadCall

def run (ro : ReadOnly) : ReadCall → Except Panic (List ReadIndexStatus × ReadOnly)
  | addRequest index msg => do
      let ro' ← ro.addRequest index msg
      pure ([], ro')
  | recvAck msg => pure ([], (ro.recvAck msg).2)
  | advance msg => ro.advance msg

/-- A request whose context is pending already is dropped. -/
def accepts (ro : ReadOnly) : ReadCall → List (ℕ × Message)
  | addRequest index msg =>
      if msg.requestCtx ∈ ro.pendingReadIndex then [] else [(index, msg)]
  | recvAck _ => []
  | advance _ => []

/-- A request has an entry. -/
def Carries : ReadCall → Prop
  | addRequest _ msg => msg.entries ≠ []
  | _ => True

def record (j : ReadJournal) (c : ReadCall) : Except Panic ReadJournal := do
  let (rss, ro) ← c.run j.ro
  pure
    { ro := ro
      accepted := j.accepted ++ c.accepts j.ro
      returned := j.returned ++ rss }

/-- The sender, if the call acknowledges `ctx`. -/
def ackFrom (ctx : Bytes) : ReadCall → Option ℕ
  | recvAck msg => if msg.context = ctx then some msg.from_ else none
  | _ => none

/-- Who acknowledges `ctx` along the calls. -/
def senders (ctx : Bytes) (cs : List ReadCall) : Finset ℕ := (cs.filterMap (ackFrom ctx)).toFinset

end ReadCall

namespace ReadIndexStatus

def request (status : ReadIndexStatus) : ℕ × Message := (status.index, status.req)

/-- The set `acks`. -/
def ackers (status : ReadIndexStatus) : Finset ℕ := status.acks.keys.toFinset

end ReadIndexStatus

namespace ReadOnly

/-- The statuses of the pending requests, oldest first. -/
def pending (ro : ReadOnly) : List ReadIndexStatus :=
  values ro.readIndexQueue ro.pendingReadIndex

/-- Queue and map have the same contexts, each once. -/
def Steady (ro : ReadOnly) : Prop := InStep ro.readIndexQueue ro.pendingReadIndex

/-- Advancing releases everything up to the context, and nothing if it is not pending. -/
def Releases (ro : ReadOnly) (msg : Message) : Prop :=
  ∃ rss ro', ro.advance msg = .ok (rss, ro') ∧
    (msg.context ∉ ro.readIndexQueue → rss = [] ∧ ro' = ro) ∧
    ∀ front back, ro.readIndexQueue = front ++ msg.context :: back →
      rss = values (front ++ [msg.context]) ro.pendingReadIndex ∧
        ro'.readIndexQueue = back ∧ ro.pending = rss ++ ro'.pending

variable {ro : ReadOnly} {msg : Message} {ctx : Bytes} {status : ReadIndexStatus} {index : ℕ}

/-! ## §2  One call -/

theorem addRequest_eq (hmsg : msg.entries ≠ []) :
    ro.addRequest index msg =
      if msg.requestCtx ∈ ro.pendingReadIndex then .ok ro
      else .ok
        { ro with
          pendingReadIndex :=
            ro.pendingReadIndex.insert msg.requestCtx { req := msg, index := index }
          readIndexQueue := ro.readIndexQueue ++ [msg.requestCtx] } := by
  obtain ⟨e, es, he⟩ := List.exists_cons_of_ne_nil hmsg
  rw [addRequest, Message.requestCtx, he]
  rfl

/-- An acknowledgement changes the acknowledgements of its context only. -/
theorem recvAck_eq (ro : ReadOnly) (msg : Message) :
    (ro.pendingReadIndex.lookup msg.context = none ∧ (ro.recvAck msg).2 = ro) ∨
      ∃ status, ro.pendingReadIndex.lookup msg.context = some status ∧
      (ro.recvAck msg).2 =
        { ro with
          pendingReadIndex := ro.pendingReadIndex.replace msg.context
            { status with acks := status.acks.orInsert msg.from_ () } } := by
  rw [recvAck]
  cases hlookup : ro.pendingReadIndex.lookup msg.context with
  | none => exact Or.inl ⟨rfl, rfl⟩
  | some status => exact Or.inr ⟨status, rfl, rfl⟩

/-- In step, every context looked at is in the map. -/
theorem position_none {xs : List Bytes} (h : ∀ x ∈ xs, x ∈ ro.pendingReadIndex)
    (hctx : ctx ∉ xs) : ro.position ctx xs = .ok none := by
  induction xs with
  | nil => rfl
  | cons x xs ih =>
      obtain ⟨hx, hxs⟩ := List.forall_mem_cons.mp h
      obtain ⟨hne, hctx⟩ := not_or.mp (mt List.mem_cons.mpr hctx)
      rw [position, if_neg (not_not_intro hx), if_neg (Ne.symm hne), ih hxs hctx]
      rfl

theorem position_some {front back : List Bytes}
    (h : ∀ x ∈ front ++ ctx :: back, x ∈ ro.pendingReadIndex) (hctx : ctx ∉ front) :
    ro.position ctx (front ++ ctx :: back) = .ok (some front.length) := by
  induction front with
  | nil =>
      have hx := h ctx List.mem_cons_self
      rw [List.nil_append, position, if_neg (not_not_intro hx), if_pos rfl]
      rfl
  | cons x front ih =>
      rw [List.cons_append] at h ⊢
      obtain ⟨hx, hxs⟩ := List.forall_mem_cons.mp h
      obtain ⟨hne, hctx⟩ := not_or.mp (mt List.mem_cons.mpr hctx)
      rw [position, if_neg (not_not_intro hx), if_neg (Ne.symm hne), ih hxs hctx]
      rfl

/-- Taking the front of the queue leaves the rest as it was. -/
theorem popFront_eq (front back : List Bytes) (h : ro.Steady)
    (hq : ro.readIndexQueue = front ++ back) :
    ∃ ro', ro.popFront front.length = .ok (values front ro.pendingReadIndex, ro') ∧
      ro'.Steady ∧ ro'.readIndexQueue = back ∧
      ∀ x ∈ back, ro'.pendingReadIndex.lookup x = ro.pendingReadIndex.lookup x := by
  induction front generalizing ro with
  | nil => exact ⟨ro, rfl, h, hq, fun _ _ => rfl⟩
  | cons x front ih =>
      have h' : InStep (x :: (front ++ back)) ro.pendingReadIndex := by
        rw [← List.cons_append, ← hq]
        exact h
      obtain ⟨status, hlookup, hstep, _⟩ := h'.pop
      have hout := (List.nodup_cons.mp h'.nodup).1
      have hkeep : ∀ y ∈ front ++ back,
          (ro.pendingReadIndex.erase x).lookup y = ro.pendingReadIndex.lookup y :=
        fun y hy => AList.lookup_erase_ne fun heq => hout (heq ▸ hy)
      have herased : Steady { ro with
          pendingReadIndex := ro.pendingReadIndex.erase x
          readIndexQueue := front ++ back } := hstep
      obtain ⟨ro', hpop, hsteady, hback, hrest⟩ := ih herased rfl
      refine ⟨ro', ?_, hsteady, hback, ?_⟩
      · have hfront : values (x :: front) ro.pendingReadIndex =
            status :: values front (ro.pendingReadIndex.erase x) := by
          rw [values_congr fun y hy => hkeep y (List.mem_append_left back hy), values,
            List.filterMap_cons, hlookup]
          rfl
        rw [hfront, List.length_cons, popFront, hq]
        simp only [List.cons_append, hlookup, hpop, ok_bind, pure_eq_ok]
      · intro y hy
        rw [hrest y hy]
        exact hkeep y (List.mem_append_right front hy)

theorem Steady.advance_absent (h : ro.Steady) (hctx : msg.context ∉ ro.readIndexQueue) :
    ro.advance msg = .ok ([], ro) := by
  rw [advance, position_none (fun x hx => (h.mem_iff x).mp hx) hctx]
  rfl

theorem Steady.advance_present (h : ro.Steady) {front back : List Bytes}
    (hq : ro.readIndexQueue = front ++ msg.context :: back) :
    ∃ ro', ro.advance msg =
        .ok (values (front ++ [msg.context]) ro.pendingReadIndex, ro') ∧
      ro'.Steady ∧ ro'.readIndexQueue = back ∧
      ∀ x ∈ back, ro'.pendingReadIndex.lookup x = ro.pendingReadIndex.lookup x := by
  have hfirst : msg.context ∉ front := by
    have hnodup := h.nodup
    rw [hq] at hnodup
    intro hmem
    exact (List.nodup_append.mp hnodup).2.2 _ hmem _ List.mem_cons_self rfl
  have hpos : ro.position msg.context ro.readIndexQueue = .ok (some front.length) := by
    have hall : ∀ x ∈ ro.readIndexQueue, x ∈ ro.pendingReadIndex :=
      fun x hx => (h.mem_iff x).mp hx
    rw [hq] at hall ⊢
    exact position_some hall hfirst
  obtain ⟨ro', hpop, hrest⟩ := popFront_eq (front ++ [msg.context]) back h
    (by rw [hq, List.append_assoc, List.singleton_append])
  rw [List.length_append, List.length_singleton] at hpop
  refine ⟨ro', ?_, hrest⟩
  rw [advance, hpos]
  exact hpop

theorem Steady.releases (h : ro.Steady) (msg : Message) : ro.Releases msg := by
  by_cases hctx : msg.context ∈ ro.readIndexQueue
  · obtain ⟨front, back, hq⟩ := List.append_of_mem hctx
    obtain ⟨ro', hrun, _⟩ := h.advance_present hq
    refine ⟨_, ro', hrun, fun hno => absurd hctx hno, ?_⟩
    intro front' back' hq'
    obtain ⟨ro'', hrun', _, hback, hrest⟩ := h.advance_present hq'
    rw [hrun] at hrun'
    obtain ⟨hrss, rfl⟩ := Prod.mk.inj (Except.ok.inj hrun')
    rw [hrss, pending, pending, hback, values_congr hrest, ← values_append, List.append_assoc]
    exact ⟨rfl, rfl, by rw [hq']; rfl⟩
  · exact ⟨[], ro, h.advance_absent hctx, fun _ => ⟨rfl, rfl⟩,
      fun front back hq => absurd (hq ▸ List.mem_append_right front List.mem_cons_self) hctx⟩

variable {c : ReadCall} {rss : List ReadIndexStatus} {ro' : ReadOnly}

/-- A call returns; what it releases and what it leaves pending is what was pending and
what came in. -/
theorem Steady.run (h : ro.Steady) (hc : c.Carries) :
    ∃ rss ro', c.run ro = .ok (rss, ro') ∧ ro'.Steady ∧
      (rss ++ ro'.pending).map ReadIndexStatus.request =
        ro.pending.map ReadIndexStatus.request ++ c.accepts ro := by
  cases c with
  | addRequest index msg =>
      simp only [ReadCall.run, ReadCall.accepts, addRequest_eq hc]
      by_cases hctx : msg.requestCtx ∈ ro.pendingReadIndex
      · rw [if_pos hctx, if_pos hctx, List.append_nil]
        exact ⟨[], ro, rfl, h, rfl⟩
      · rw [if_neg hctx, if_neg hctx]
        obtain ⟨hstep, hvalues⟩ := h.push hctx { req := msg, index := index }
        refine ⟨[], _, rfl, hstep, ?_⟩
        rw [List.nil_append, pending, hvalues, List.map_append]
        rfl
  | recvAck msg =>
      refine ⟨[], _, rfl, ?_⟩
      rw [List.nil_append, ReadCall.accepts, List.append_nil]
      rcases recvAck_eq ro msg with ⟨_, hnone⟩ | ⟨status, hlookup, hsome⟩
      · rw [hnone]
        exact ⟨h, rfl⟩
      · rw [hsome]
        exact ⟨h.replace _ _, InStep.map_values_replace ReadIndexStatus.request hlookup rfl⟩
  | advance msg =>
      rw [ReadCall.accepts, List.append_nil]
      by_cases hctx : msg.context ∈ ro.readIndexQueue
      · obtain ⟨front, back, hq⟩ := List.append_of_mem hctx
        obtain ⟨ro', hrun, hsteady, hback, hrest⟩ := h.advance_present hq
        refine ⟨_, ro', hrun, hsteady, ?_⟩
        rw [pending, pending, hback, values_congr hrest, ← values_append, List.append_assoc,
          hq]
        rfl
      · exact ⟨[], ro, h.advance_absent hctx, h, rfl⟩

/-- A request that comes in does not touch the one that is pending. -/
theorem lookup_addRequest (hmsg : msg.entries ≠ [])
    (hlookup : ro.pendingReadIndex.lookup ctx = some status)
    (hrun : ro.addRequest index msg = .ok ro') :
    ro'.pendingReadIndex.lookup ctx = some status := by
  rw [addRequest_eq hmsg] at hrun
  by_cases hctx : msg.requestCtx ∈ ro.pendingReadIndex
  · rw [if_pos hctx] at hrun
    cases hrun
    exact hlookup
  · rw [if_neg hctx] at hrun
    cases hrun
    -- the new context is not the one that is pending
    have hne : ctx ≠ msg.requestCtx := by
      rintro rfl
      exact hctx (AList.mem_iff_exists_lookup.mpr ⟨status, hlookup⟩)
    exact (AList.lookup_insert_ne hne).trans hlookup

/-- An acknowledgement is taken by the status of its context. -/
theorem lookup_recvAck (hlookup : ro.pendingReadIndex.lookup ctx = some status) (msg : Message) :
    ∃ status', (ro.recvAck msg).2.pendingReadIndex.lookup ctx = some status' ∧
      status'.request = status.request ∧
      status'.ackers = status.ackers ∪ ReadCall.senders ctx [.recvAck msg] := by
  by_cases hctx : msg.context = ctx
  · subst hctx
    have hmem : msg.context ∈ ro.pendingReadIndex :=
      AList.mem_iff_exists_lookup.mpr ⟨status, hlookup⟩
    rcases recvAck_eq ro msg with ⟨hnone, _⟩ | ⟨status', hlookup', hsome⟩
    · rw [hlookup] at hnone
      cases hnone
    · rw [hlookup] at hlookup'
      cases hlookup'
      rw [hsome]
      refine ⟨_, AList.lookup_replace_self _ hmem, rfl, ?_⟩
      ext id
      simp [ReadIndexStatus.ackers, ReadCall.senders, ReadCall.ackFrom,
        ← AList.mem_keys, AList.mem_orInsert]
  · have hnobody : ReadCall.senders ctx [.recvAck msg] = ∅ := by
      simp [ReadCall.senders, ReadCall.ackFrom, hctx]
    rw [hnobody, Finset.union_empty]
    refine ⟨status, ?_, rfl, rfl⟩
    rcases recvAck_eq ro msg with ⟨_, hnone⟩ | ⟨status', _, hsome⟩
    · rw [hnone]
      exact hlookup
    · rw [hsome]
      exact (AList.lookup_replace_ne _ (Ne.symm hctx)).trans hlookup

/-- What advancing leaves pending it leaves as it was. -/
theorem Steady.lookup_advance (h : ro.Steady)
    (hlookup : ro.pendingReadIndex.lookup ctx = some status)
    (hrun : ro.advance msg = .ok (rss, ro')) (hin : ctx ∈ ro'.pendingReadIndex) :
    ro'.pendingReadIndex.lookup ctx = some status := by
  by_cases hctx : msg.context ∈ ro.readIndexQueue
  · obtain ⟨front, back, hq⟩ := List.append_of_mem hctx
    obtain ⟨ro'', hrun', hsteady, hback, hrest⟩ := h.advance_present hq
    rw [hrun'] at hrun
    cases hrun
    rw [hrest ctx (hback ▸ (hsteady.mem_iff ctx).mpr hin)]
    exact hlookup
  · rw [h.advance_absent hctx] at hrun
    cases hrun
    exact hlookup

/-- A request that stays pending keeps what it is, and takes the acknowledgement if the
call is one for it. -/
theorem Steady.run_lookup (h : ro.Steady) (hc : c.Carries)
    (hlookup : ro.pendingReadIndex.lookup ctx = some status) (hrun : c.run ro = .ok (rss, ro'))
    (hin : ctx ∈ ro'.pendingReadIndex) :
    ∃ status', ro'.pendingReadIndex.lookup ctx = some status' ∧
      status'.request = status.request ∧
      status'.ackers = status.ackers ∪ ReadCall.senders ctx [c] := by
  cases c with
  | addRequest index msg =>
      obtain ⟨ro₁, hadd, hro⟩ := bind_eq_ok hrun
      cases hro
      exact ⟨status, lookup_addRequest hc hlookup hadd, rfl, (Finset.union_empty _).symm⟩
  | recvAck msg =>
      cases hrun
      exact lookup_recvAck hlookup msg
  | advance msg =>
      exact ⟨status, h.lookup_advance hlookup hrun hin, rfl, (Finset.union_empty _).symm⟩

end ReadOnly

/-! ## §3  The run -/

namespace ReadJournal

variable {j j' : ReadJournal} {c : ReadCall} {cs : List ReadCall}

/-- What was returned and what is pending are the accepted requests, in order. -/
structure Exact (j : ReadJournal) : Prop where
  steady : j.ro.Steady
  requests : (j.returned ++ j.ro.pending).map ReadIndexStatus.request = j.accepted

/-- The request is accepted, and pending at every moment of `post`. -/
structure Waits (j : ReadJournal) (index : ℕ) (msg : Message) (post : List ReadCall) : Prop where
  accepted : msg.requestCtx ∉ j.ro.pendingReadIndex
  pending : ∀ post' j', post' <+: post →
    (ReadCall.addRequest index msg :: post').foldlM ReadCall.record j = .ok j' →
      msg.requestCtx ∈ j'.ro.pendingReadIndex

theorem exact_new (option : ReadOnlyOption) : Exact { ro := ReadOnly.new option } :=
  ⟨InStep.empty, rfl⟩

theorem Exact.record (h : j.Exact) (hc : c.Carries) : ∃ j', c.record j = .ok j' ∧ j'.Exact := by
  obtain ⟨rss, ro, hrun, hsteady, hrequests⟩ := h.steady.run hc
  refine ⟨_, by rw [ReadCall.record, hrun]; rfl, hsteady, ?_⟩
  show ((j.returned ++ rss) ++ ro.pending).map ReadIndexStatus.request =
    j.accepted ++ c.accepts j.ro
  rw [List.append_assoc, List.map_append, hrequests, ← h.requests, List.map_append,
    List.append_assoc]

theorem Exact.records (h : j.Exact) (hcs : ∀ c ∈ cs, c.Carries) :
    ∃ j', cs.foldlM ReadCall.record j = .ok j' ∧ j'.Exact := by
  induction cs generalizing j with
  | nil => exact ⟨j, rfl, h⟩
  | cons c cs ih =>
      obtain ⟨hc, hcs⟩ := List.forall_mem_cons.mp hcs
      obtain ⟨j₁, hrec, h₁⟩ := h.record hc
      obtain ⟨j', hrecs, h'⟩ := ih h₁ hcs
      exact ⟨j', by rw [List.foldlM_cons, hrec]; exact hrecs, h'⟩

/-- As long as a request is pending, its status collects the acknowledgements. -/
theorem Exact.records_lookup (h : j.Exact) (hcs : ∀ c ∈ cs, c.Carries) {ctx : Bytes}
    {status : ReadIndexStatus} (hlookup : j.ro.pendingReadIndex.lookup ctx = some status)
    (hwait : ∀ cs' j', cs' <+: cs → cs'.foldlM ReadCall.record j = .ok j' →
      ctx ∈ j'.ro.pendingReadIndex) (hrec : cs.foldlM ReadCall.record j = .ok j') :
    ∃ status', j'.ro.pendingReadIndex.lookup ctx = some status' ∧
      status'.request = status.request ∧
      status'.ackers = status.ackers ∪ ReadCall.senders ctx cs := by
  induction cs generalizing j status with
  | nil =>
      cases hrec
      exact ⟨status, hlookup, rfl, (Finset.union_empty _).symm⟩
  | cons c cs ih =>
      obtain ⟨hc, hcs⟩ := List.forall_mem_cons.mp hcs
      rw [List.foldlM_cons] at hrec
      obtain ⟨j₁, hrec₁, hrec⟩ := bind_eq_ok hrec
      obtain ⟨j₁', hrec₁', h₁⟩ := h.record hc
      obtain rfl : j₁' = j₁ := Except.ok.inj (hrec₁'.symm.trans hrec₁)
      have hstep : ∀ cs', (c :: cs').foldlM ReadCall.record j =
          cs'.foldlM ReadCall.record j₁' := by
        intro cs'
        rw [List.foldlM_cons, hrec₁]
        rfl
      have hin := hwait [c] j₁' (List.prefix_append [c] cs) (hstep [])
      obtain ⟨⟨rss, ro⟩, hrun, hro⟩ := bind_eq_ok hrec₁
      cases hro
      obtain ⟨status₁, hlookup₁, hreq₁, hack₁⟩ :=
        h.steady.run_lookup hc hlookup hrun hin
      obtain ⟨status', hlookup', hreq', hack'⟩ := ih h₁ hcs hlookup₁
        (fun cs' j' hpre hrec' => hwait (c :: cs') j'
          (List.cons_prefix_cons.mpr ⟨rfl, hpre⟩) ((hstep cs').trans hrec')) hrec
      refine ⟨status', hlookup', hreq'.trans hreq₁, ?_⟩
      rw [hack', hack₁, Finset.union_assoc, ReadCall.senders, ReadCall.senders,
        ReadCall.senders, ← List.toFinset_append, ← List.filterMap_append]
      rfl

end ReadJournal

/-- Where the calls lead from the empty queue: the queue has the contexts of the map, each
once; requests come out in the order they came in; and a status has heard exactly those
who acknowledged it while it was pending. -/
structure ReadJournal.Fifo (option : ReadOnlyOption) (cs : List ReadCall) (j : ReadJournal) :
    Prop where
  run : cs.foldlM ReadCall.record { ro := ReadOnly.new option } = .ok j
  nodup : j.ro.readIndexQueue.Nodup
  keys : ∀ ctx, ctx ∈ j.ro.readIndexQueue ↔ ctx ∈ j.ro.pendingReadIndex
  requests : (j.returned ++ j.ro.pending).map ReadIndexStatus.request = j.accepted
  releases : ∀ msg, j.ro.Releases msg
  acks : ∀ pre index msg post j₁, cs = pre ++ .addRequest index msg :: post →
    pre.foldlM ReadCall.record { ro := ReadOnly.new option } = .ok j₁ →
    j₁.Waits index msg post →
      ∃ status, j.ro.pendingReadIndex.lookup msg.requestCtx = some status ∧
        status.request = (index, msg) ∧ status.ackers = ReadCall.senders msg.requestCtx post

open ReadJournal in
/-- Calls of requests with an entry never panic, and the queue is first in, first out. -/
theorem ReadOnly.fifo_run (option : ReadOnlyOption) (cs : List ReadCall)
    (hcs : ∀ c ∈ cs, c.Carries) : ∃ j, ReadJournal.Fifo option cs j := by
  obtain ⟨j, hrec, hexact⟩ := (exact_new option).records hcs
  refine ⟨j, hrec, hexact.steady.nodup, hexact.steady.mem_iff, hexact.requests,
    hexact.steady.releases, ?_⟩
  rintro pre index msg post j₁ rfl hpre hwait
  have hcarries : (ReadCall.addRequest index msg).Carries :=
    hcs _ (List.mem_append_right pre List.mem_cons_self)
  obtain ⟨j₁', hpre', hexact₁⟩ := (exact_new option).records
    fun c hc => hcs c (List.mem_append_left _ hc)
  obtain rfl : j₁' = j₁ := Except.ok.inj (hpre'.symm.trans hpre)
  rw [List.foldlM_append, hpre', ok_bind, List.foldlM_cons] at hrec
  obtain ⟨j₂, hadd, hrec⟩ := bind_eq_ok hrec
  obtain ⟨j₂', hadd', hexact₂⟩ := hexact₁.record hcarries
  obtain rfl : j₂' = j₂ := Except.ok.inj (hadd'.symm.trans hadd)
  -- the request starts without acknowledgements
  have hlookup : j₂'.ro.pendingReadIndex.lookup msg.requestCtx =
      some { req := msg, index := index } := by
    obtain ⟨⟨rss, ro⟩, hrun, hro⟩ := bind_eq_ok hadd
    cases hro
    simp only [ReadCall.run, ReadOnly.addRequest_eq hcarries, if_neg hwait.accepted] at hrun
    cases hrun
    exact AList.lookup_insert _
  obtain ⟨status, hstatus, hreq, hack⟩ := hexact₂.records_lookup
    (fun c hc => hcs c (List.mem_append_right pre (List.mem_cons_of_mem _ hc))) hlookup
    (fun post' j' hprefix hrec' => hwait.pending post' j' hprefix (by
      rw [List.foldlM_cons, hadd']
      exact hrec')) hrec
  refine ⟨status, hstatus, hreq, ?_⟩
  rw [hack]
  exact Finset.empty_union _

/-! Two requests, the first one acknowledged; advancing to the second releases both. -/

def bothReleased : List ReadCall :=
  [.addRequest 5 { entries := [{ data := [1] }] }, .recvAck { from_ := 2, context := [1] },
    .addRequest 7 { entries := [{ data := [2] }] }, .advance { context := [2] }]

theorem ReadOnly.fifo_run_bothReleased : ∃ j, ReadJournal.Fifo .Safe bothReleased j := by
  apply ReadOnly.fifo_run
  simp [bothReleased, ReadCall.Carries]

end RsRaft
