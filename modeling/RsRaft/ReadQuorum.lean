import RsRaft.Progress
import RsRaft.ReadOnly

/-!
# Quorums of read acknowledgements

`has_quorum` compares the number of ids with a majority of the voters and does
not ask who they are, while the leader asks voters and learners alike for
acknowledgements. Sets of voters meet; as soon as one other id can be counted
two accepted sets can miss each other.

§1 acknowledgements gathered by a leader · §2 accepted sets · §3 when accepted
sets meet.
-/

namespace RsRaft

/-! ## §1  Acknowledgements gathered by a leader -/

namespace ReadOnly

variable {ro : ReadOnly} {ctx : Bytes} {status : ReadIndexStatus} {leader : ℕ}

/-- The set `recv_ack` returns for the last of the messages. -/
def recvAcks (ro : ReadOnly) : List Message → AList fun _ : ℕ => Unit
  | [] => ∅
  | [m] => (ro.recvAck m).1
  | m :: m' :: ms => recvAcks (ro.recvAck m).2 (m' :: ms)

/-- An acknowledgement joins those received before. -/
theorem recvAck_pending {m : Message} (h : ro.pendingReadIndex.lookup ctx = some status)
    (hctx : m.context = ctx) :
    (∀ id, id ∈ (ro.recvAck m).1 ↔ id = m.to_ ∨ m.from_ = id ∨ id ∈ status.acks) ∧
    ∃ status', (ro.recvAck m).2.pendingReadIndex.lookup ctx = some status' ∧
      ∀ id, id ∈ status'.acks ↔ m.from_ = id ∨ id ∈ status.acks := by
  subst hctx
  unfold recvAck
  rw [h]
  refine ⟨?_, { status with acks := status.acks.orInsert m.from_ () }, ?_, ?_⟩
  · intro id
    rw [AList.mem_orInsert, AList.mem_orInsert, eq_comm (a := m.from_)]
  · exact AList.lookup_replace_self _ (AList.mem_iff_exists_lookup.mpr ⟨status, h⟩)
  · intro id
    rw [AList.mem_orInsert, eq_comm (a := m.from_)]

/-- The set returned last: the leader, the senders, and who was there before. -/
theorem mem_recvAcks {ms : List Message} :
    ∀ {ro : ReadOnly} {status : ReadIndexStatus},
      ro.pendingReadIndex.lookup ctx = some status → ms ≠ [] →
      (∀ m ∈ ms, m.context = ctx ∧ m.to_ = leader) → ∀ id,
      (id ∈ ro.recvAcks ms ↔ id = leader ∨ (∃ m ∈ ms, m.from_ = id) ∨ id ∈ status.acks) := by
  induction ms with
  | nil =>
      intro ro status _ hne
      exact absurd rfl hne
  | cons m ms ih =>
      intro ro status h _ hms id
      obtain ⟨hctx, hto⟩ := hms m List.mem_cons_self
      obtain ⟨hfirst, status', hlookup, hacks⟩ := recvAck_pending h hctx
      cases ms with
      | nil =>
          rw [recvAcks, hfirst id, hto]
          simp only [List.mem_singleton, exists_eq_left]
      | cons m' ms =>
          rw [recvAcks, ih hlookup (by simp) (fun q hq => hms q (List.mem_cons_of_mem _ hq)) id,
            hacks id]
          simp only [List.mem_cons, exists_eq_or_imp, or_assoc, or_left_comm]

end ReadOnly

namespace ProgressSet

variable {prs : ProgressSet}

/-- A set a leader gathers for a read request nobody answered yet, from peers that got
its heartbeat. The leader is any member: `step` campaigns on a `MsgHup` without asking
whether the node is a voter. -/
def AckSet (prs : ProgressSet) (S : AList fun _ : ℕ => Unit) : Prop :=
  ∃ (ro : ReadOnly) (ctx : Bytes) (status : ReadIndexStatus) (leader : ℕ) (ms : List Message),
    ro.pendingReadIndex.lookup ctx = some status ∧ status.acks = ∅ ∧ leader ∈ prs.progress ∧
      (∀ m ∈ ms, m.context = ctx ∧ m.to_ = leader ∧ m.from_ ∈ prs.progress ∧
        m.from_ ≠ leader) ∧
      S = ro.recvAcks ms

/-- One request waiting for its first answer. -/
def oneRequest : ReadOnly :=
  { pendingReadIndex := (∅ : AList fun _ : Bytes => ReadIndexStatus).insert []
      { req := {}, index := 0 } }

theorem lookup_oneRequest : oneRequest.pendingReadIndex.lookup [] =
    some { req := {}, index := 0 } := AList.lookup_insert _

/-! ## §2  Accepted sets -/

/-- Any two accepted sets of a kind share a voter, and each holds a voter that
has the maximal committed index. -/
def QuorumsMeet (prs : ProgressSet) (Kind : (AList fun _ : ℕ => Unit) → Prop) : Prop :=
  ∀ S₁ S₂, Kind S₁ → Kind S₂ → prs.hasQuorum S₁ = true → prs.hasQuorum S₂ = true →
    (∃ id ∈ prs.voterIds, id ∈ S₁ ∧ id ∈ S₂) ∧
    ∃ mci, prs.maximalCommittedIndex = .ok mci ∧
      ∃ id ∈ prs.voterIds, id ∈ S₁ ∧ ∃ pr, prs.get id = some pr ∧ mci ≤ pr.matched

theorem hasQuorum_iff {S : AList fun _ : ℕ => Unit} :
    prs.hasQuorum S = true ↔ majority prs.voterIds.keys.toFinset.card ≤ S.keys.toFinset.card := by
  rw [hasQuorum, decide_eq_true_eq, AList.card_keys, AList.card_keys]

/-- Accepted sets of voters meet. -/
theorem WellFormed.quorumsMeet_of_voters (h : prs.WellFormed) (hne : 0 < prs.voterIds.size)
    {Kind : (AList fun _ : ℕ => Unit) → Prop}
    (hkind : ∀ S, Kind S → ∀ id ∈ S, id ∈ prs.voterIds) : QuorumsMeet prs Kind := by
  intro S₁ S₂ h₁ h₂ hq₁ hq₂
  rw [hasQuorum_iff] at hq₁ hq₂
  have hsub : ∀ S, Kind S → S.keys.toFinset ⊆ prs.voterIds.keys.toFinset := by
    intro S hS id hid
    rw [List.mem_toFinset] at hid ⊢
    exact hkind S hS id hid
  constructor
  · obtain ⟨id, hid⟩ := majority_inter_nonempty (hsub S₁ h₁) (hsub S₂ h₂) hq₁ hq₂
    rw [Finset.mem_inter, List.mem_toFinset, List.mem_toFinset] at hid
    exact ⟨id, hkind S₁ h₁ id hid.1, hid.1, hid.2⟩
  · obtain ⟨mci, hmci⟩ := h.maximalCommittedIndex hne
    have hreach := (h.le_maximalCommittedIndex_iff hmci mci).mp (Nat.le_refl mci)
    rw [← AList.card_keys] at hreach
    obtain ⟨id, hid⟩ := majority_inter_nonempty (hsub S₁ h₁) reached_subset hq₁ hreach
    rw [Finset.mem_inter, List.mem_toFinset] at hid
    obtain ⟨hvoter, hmatched⟩ := mem_reached.mp hid.2
    exact ⟨mci, hmci, id, hvoter, hid.1, hmatched⟩

/-! ## §3  When accepted sets meet -/

/-- Two disjoint halves of the voters. -/
theorem exists_halves (V : Finset ℕ) :
    ∃ A B, A ⊆ V ∧ B ⊆ V ∧ Disjoint A B ∧ A.card = V.card / 2 ∧ B.card = V.card / 2 := by
  obtain ⟨A, hA, hcardA⟩ := Finset.exists_subset_card_eq (show V.card / 2 ≤ V.card by omega)
  have hrest : V.card / 2 ≤ (V \ A).card := by
    rw [Finset.card_sdiff_of_subset hA]
    omega
  obtain ⟨B, hB, hcardB⟩ := Finset.exists_subset_card_eq hrest
  refine ⟨A, B, hA, hB.trans Finset.sdiff_subset, ?_, hcardA, hcardB⟩
  exact Finset.disjoint_of_subset_right hB Finset.disjoint_sdiff

/-- A half of the voters and one more id make an accepted set, and two of them
share only that id. -/
theorem not_quorumsMeet_of_halves {Kind : (AList fun _ : ℕ => Unit) → Prop} {A B : Finset ℕ}
    {x : ℕ} (hx : x ∉ prs.voterIds) (hA : A ⊆ prs.voterIds.keys.toFinset)
    (hB : B ⊆ prs.voterIds.keys.toFinset) (hAB : Disjoint A B)
    (hcardA : A.card = prs.voterIds.keys.toFinset.card / 2)
    (hcardB : B.card = prs.voterIds.keys.toFinset.card / 2)
    (hKA : ∃ S, Kind S ∧ S.keys.toFinset = insert x A)
    (hKB : ∃ S, Kind S ∧ S.keys.toFinset = insert x B) : ¬ QuorumsMeet prs Kind := by
  intro hmeet
  obtain ⟨S₁, hK₁, hkeys₁⟩ := hKA
  obtain ⟨S₂, hK₂, hkeys₂⟩ := hKB
  have hout : ∀ C : Finset ℕ, C ⊆ prs.voterIds.keys.toFinset → x ∉ C := by
    intro C hC hxC
    exact hx (AList.mem_keys.mpr (List.mem_toFinset.mp (hC hxC)))
  -- a half and one more id are as many as a majority
  have hq₁ : prs.hasQuorum S₁ = true := by
    rw [hasQuorum_iff, hkeys₁, Finset.card_insert_of_notMem (hout A hA), hcardA, majority]
  have hq₂ : prs.hasQuorum S₂ = true := by
    rw [hasQuorum_iff, hkeys₂, Finset.card_insert_of_notMem (hout B hB), hcardB, majority]
  obtain ⟨⟨id, hvoter, hid₁, hid₂⟩, _⟩ := hmeet S₁ S₂ hK₁ hK₂ hq₁ hq₂
  have hne : id ≠ x := by
    rintro rfl
    exact hx hvoter
  have hmem : ∀ (S : AList fun _ : ℕ => Unit) (C : Finset ℕ), S.keys.toFinset = insert x C →
      id ∈ S → id ∈ C := by
    intro S C hkeys hid
    have hmem : id ∈ insert x C := by
      rw [← hkeys, List.mem_toFinset]
      exact hid
    exact (Finset.mem_insert.mp hmem).resolve_left hne
  exact Finset.disjoint_left.mp hAB (hmem S₁ A hkeys₁ hid₁) (hmem S₂ B hkeys₂ hid₂)

/-- A leader gathers any set of members around it, as long as it is not alone. -/
theorem exists_ackSet {C : Finset ℕ} {a x : ℕ} (hC : ∀ id ∈ C, id ∈ prs.progress) (ha : a ∈ C)
    (hx : x ∈ C) (hne : x ≠ a) : ∃ S, AckSet prs S ∧ S.keys.toFinset = C := by
  have hacks : ∀ m ∈ (C.erase a).toList.map (fun id => ({ from_ := id, to_ := a } : Message)),
      m.context = [] ∧ m.to_ = a ∧ m.from_ ∈ prs.progress ∧ m.from_ ≠ a := by
    intro m hm
    obtain ⟨id, hid, rfl⟩ := List.mem_map.mp hm
    obtain ⟨hida, hmem⟩ := Finset.mem_erase.mp (Finset.mem_toList.mp hid)
    exact ⟨rfl, rfl, hC id hmem, hida⟩
  have hsome : (C.erase a).toList.map (fun id => ({ from_ := id, to_ := a } : Message)) ≠ [] := by
    have hmem : x ∈ (C.erase a).toList :=
      Finset.mem_toList.mpr (Finset.mem_erase.mpr ⟨hne, hx⟩)
    rw [Ne, List.map_eq_nil_iff]
    exact List.ne_nil_of_mem hmem
  refine ⟨_, ⟨oneRequest, [], _, a, _, lookup_oneRequest, rfl, hC a ha, hacks, rfl⟩, ?_⟩
  ext id
  rw [List.mem_toFinset, ← AList.mem_keys,
    ReadOnly.mem_recvAcks lookup_oneRequest hsome
      (fun m hm => ⟨(hacks m hm).1, (hacks m hm).2.1⟩)]
  constructor
  · rintro (rfl | ⟨m, hm, rfl⟩ | hnil)
    · exact ha
    · obtain ⟨id, hid, rfl⟩ := List.mem_map.mp hm
      exact (Finset.mem_erase.mp (Finset.mem_toList.mp hid)).2
    · cases hnil
  · intro hid
    by_cases heq : id = a
    · exact Or.inl heq
    · refine Or.inr (Or.inl ⟨_, List.mem_map.mpr ⟨id, ?_, rfl⟩, rfl⟩)
      exact Finset.mem_toList.mpr (Finset.mem_erase.mpr ⟨heq, hid⟩)

/-- A leader hears of members only. -/
theorem AckSet.mem_progress {S : AList fun _ : ℕ => Unit} (hS : AckSet prs S) :
    ∀ id ∈ S, id ∈ prs.progress := by
  obtain ⟨ro, ctx, status, leader, ms, hlookup, hacks, hleader, hms, rfl⟩ := hS
  intro id hid
  cases ms with
  | nil => cases hid
  | cons m ms =>
      rw [ReadOnly.mem_recvAcks hlookup (by simp)
        (fun q hq => ⟨(hms q hq).1, (hms q hq).2.1⟩), hacks] at hid
      rcases hid with rfl | ⟨q, hq, rfl⟩ | hnil
      · exact hleader
      · exact (hms q hq).2.2.1
      · cases hnil

/-- The leader is in every set it gathers, and not alone. -/
theorem AckSet.exists_pair {S : AList fun _ : ℕ => Unit} (hS : AckSet prs S)
    (hq : prs.hasQuorum S = true) : ∃ a ∈ S, ∃ x ∈ S, x ≠ a := by
  obtain ⟨ro, ctx, status, leader, ms, hlookup, hacks, hleader, hms, rfl⟩ := hS
  cases ms with
  | nil =>
      rw [hasQuorum_iff] at hq
      simp [ReadOnly.recvAcks, majority] at hq
  | cons m ms =>
      have hmem := ReadOnly.mem_recvAcks hlookup (List.cons_ne_nil m ms)
        (fun q hq => ⟨(hms q hq).1, (hms q hq).2.1⟩)
      refine ⟨leader, (hmem leader).mpr (Or.inl rfl), m.from_, ?_, ?_⟩
      · exact (hmem m.from_).mpr (Or.inr (Or.inl ⟨m, List.mem_cons_self, rfl⟩))
      · exact (hms m List.mem_cons_self).2.2.2

/-- One voter and one learner are both in every set. -/
theorem WellFormed.quorumsMeet_of_pair (h : prs.WellFormed) (hone : prs.voterIds.size = 1)
    (hpair : prs.learnerIds.size = 1) : QuorumsMeet prs (AckSet prs) := by
  have hcount := hone
  rw [← AList.card_keys, Finset.card_eq_one] at hcount hpair
  obtain ⟨v, hv⟩ := hcount
  obtain ⟨l, hl⟩ := hpair
  have hvoters : ∀ id, id ∈ prs.voterIds ↔ id = v := by
    intro id
    rw [← Finset.mem_singleton, ← hv, List.mem_toFinset, AList.mem_keys]
  have hlearners : ∀ id, id ∈ prs.learnerIds ↔ id = l := by
    intro id
    rw [← Finset.mem_singleton, ← hl, List.mem_toFinset, AList.mem_keys]
  -- two different members are the voter and the learner
  have hin : ∀ S, AckSet prs S → prs.hasQuorum S = true → v ∈ S := by
    intro S hS hq
    obtain ⟨a, ha, x, hx, hne⟩ := hS.exists_pair hq
    have hboth : ∀ id ∈ S, id = v ∨ id = l := by
      intro id hid
      have hid := (h.members id).mp (hS.mem_progress id hid)
      rwa [hvoters, hlearners] at hid
    rcases hboth a ha with rfl | rfl
    · exact ha
    · rcases hboth x hx with rfl | rfl
      · exact hx
      · exact absurd rfl hne
  have hvoter := (hvoters v).mpr rfl
  intro S₁ S₂ h₁ h₂ hq₁ hq₂
  refine ⟨⟨v, hvoter, hin S₁ h₁ hq₁, hin S₂ h₂ hq₂⟩, ?_⟩
  obtain ⟨mci, hmci⟩ := h.maximalCommittedIndex (show 0 < prs.voterIds.size by omega)
  have hreach := (h.le_maximalCommittedIndex_iff hmci mci).mp (Nat.le_refl mci)
  obtain ⟨id, hid⟩ := Finset.card_pos.mp (show 0 < (prs.reached mci).card by
    unfold majority at hreach
    omega)
  obtain ⟨hid, hmatched⟩ := mem_reached.mp hid
  obtain rfl := (hvoters id).mp hid
  exact ⟨mci, hmci, id, hvoter, hin S₁ h₁ hq₁, hmatched⟩

/-- Two learners are a set that has no voter, and with a single voter an accepted one. -/
theorem WellFormed.not_quorumsMeet_of_learners (h : prs.WellFormed)
    (hone : prs.voterIds.size = 1) {x y : ℕ} (hx : x ∈ prs.learnerIds) (hy : y ∈ prs.learnerIds)
    (hne : x ≠ y) : ¬ QuorumsMeet prs (AckSet prs) := by
  intro hmeet
  have hlearner : ∀ id ∈ ({x, y} : Finset ℕ), id ∈ prs.learnerIds := by
    intro id hid
    rcases Finset.mem_insert.mp hid with rfl | hid
    · exact hx
    · exact Finset.mem_singleton.mp hid ▸ hy
  obtain ⟨S, hS, hkeys⟩ := exists_ackSet (a := y) (x := x)
    (fun id hid => (h.members id).mpr (Or.inr (hlearner id hid))) (by simp) (by simp) hne
  have hq : prs.hasQuorum S = true := by
    rw [hasQuorum_iff, hkeys, Finset.card_pair hne, AList.card_keys, hone]
    decide
  obtain ⟨⟨id, hvoter, hid, _⟩, _⟩ := hmeet S S hS hS hq hq
  refine h.disjoint id hvoter (hlearner id ?_)
  rw [← hkeys, List.mem_toFinset]
  exact AList.mem_keys.mp hid

/-- Accepted sets meet, in a voter that is up to date, exactly as long as only
voters are counted; and those gathered by recv_ack exactly if there is no
learner, or a single voter and a single learner. -/
theorem quorumsMeet_iff (h : prs.WellFormed) (hne : 0 < prs.voterIds.size) :
    (∀ U : Finset ℕ, prs.voterIds.keys.toFinset ⊆ U →
      (QuorumsMeet prs (fun S => S.keys.toFinset ⊆ U) ↔ U ⊆ prs.voterIds.keys.toFinset)) ∧
    (QuorumsMeet prs (AckSet prs) ↔ (∀ id, id ∉ prs.learnerIds) ∨
      (prs.voterIds.size = 1 ∧ prs.learnerIds.size = 1)) := by
  obtain ⟨A, B, hA, hB, hAB, hcardA, hcardB⟩ := exists_halves prs.voterIds.keys.toFinset
  constructor
  · intro U hU
    constructor
    · intro hmeet x hxU
      by_contra hx
      rw [List.mem_toFinset] at hx
      have hset : ∀ C : Finset ℕ, C ⊆ prs.voterIds.keys.toFinset →
          ∃ S : AList fun _ : ℕ => Unit, S.keys.toFinset ⊆ U ∧ S.keys.toFinset = insert x C := by
        intro C hC
        obtain ⟨S, hS⟩ := AList.exists_keys_eq (insert x C)
        refine ⟨S, ?_, hS⟩
        rw [hS]
        exact Finset.insert_subset hxU (hC.trans hU)
      exact not_quorumsMeet_of_halves hx hA hB hAB hcardA hcardB (hset A hA) (hset B hB) hmeet
    · intro hsub
      refine h.quorumsMeet_of_voters hne ?_
      intro S hS id hid
      exact List.mem_toFinset.mp (hsub (hS (List.mem_toFinset.mpr hid)))
  · constructor
    · intro hmeet
      by_contra hnot
      rw [not_or, not_forall, not_and] at hnot
      obtain ⟨⟨x, hx⟩, hmany⟩ := hnot
      rw [not_not] at hx
      by_cases hone : prs.voterIds.size = 1
      · -- a second learner
        have hcard : 1 < prs.learnerIds.keys.toFinset.card := by
          have hpos : 0 < prs.learnerIds.keys.toFinset.card :=
            Finset.card_pos.mpr ⟨x, List.mem_toFinset.mpr (AList.mem_keys.mp hx)⟩
          have hother := hmany hone
          rw [← AList.card_keys] at hother
          omega
        obtain ⟨y, hy, hyx⟩ := Finset.exists_mem_ne hcard x
        exact h.not_quorumsMeet_of_learners hone hx
          (AList.mem_keys.mpr (List.mem_toFinset.mp hy)) hyx.symm hmeet
      · rw [AList.card_keys] at hcardA hcardB
        obtain ⟨a, ha⟩ := Finset.card_pos.mp (show 0 < A.card by omega)
        obtain ⟨b, hb⟩ := Finset.card_pos.mp (show 0 < B.card by omega)
        rw [← AList.card_keys] at hcardA hcardB
        have hxV : x ∉ prs.voterIds := fun hv => h.disjoint x hv hx
        have hgather : ∀ C : Finset ℕ, C ⊆ prs.voterIds.keys.toFinset → ∀ c ∈ C,
            ∃ S, AckSet prs S ∧ S.keys.toFinset = insert x C := by
          intro C hC c hc
          have hvoter : ∀ id ∈ C, id ∈ prs.voterIds :=
            fun id hid => AList.mem_keys.mpr (List.mem_toFinset.mp (hC hid))
          refine exists_ackSet (a := c) (x := x) (fun id hid => ?_)
            (Finset.mem_insert_of_mem hc) (Finset.mem_insert_self x C) ?_
          · rcases Finset.mem_insert.mp hid with rfl | hid
            · exact (h.members _).mpr (Or.inr hx)
            · exact (h.members _).mpr (Or.inl (hvoter _ hid))
          · rintro rfl
            exact hxV (hvoter _ hc)
        exact not_quorumsMeet_of_halves hxV hA hB hAB hcardA hcardB (hgather A hA a ha)
          (hgather B hB b hb) hmeet
    · rintro (hnone | ⟨hone, hpair⟩)
      · refine h.quorumsMeet_of_voters hne fun S hS id hid => ?_
        exact ((h.members id).mp (hS.mem_progress id hid)).resolve_right (hnone id)
      · exact h.quorumsMeet_of_pair hone hpair

/-! Three voters; a voter and a learner; and three voters and two learners, leader `1`
heard by learner `4`, leader `2` by learner `5`. -/

theorem quorumsMeet_threeVoters :
    QuorumsMeet (ofIds [1, 2, 3] []) (AckSet (ofIds [1, 2, 3] [])) ∧
      QuorumsMeet (ofIds [1] [2]) (AckSet (ofIds [1] [2])) := by
  have hwf : (ofIds [1, 2, 3] []).WellFormed := wellFormed_ofIds (by decide)
  have hpair : (ofIds [1] [2]).WellFormed := wellFormed_ofIds (by decide)
  constructor
  · exact (quorumsMeet_iff hwf (by decide)).2.mpr (Or.inl fun id hid => by cases hid)
  · exact (quorumsMeet_iff hpair (by decide)).2.mpr (Or.inr ⟨by decide, by decide⟩)

theorem not_quorumsMeet_twoLearners :
    (ofIds [1, 2, 3] [4, 5]).WellFormed ∧
      ¬ QuorumsMeet (ofIds [1, 2, 3] [4, 5]) (AckSet (ofIds [1, 2, 3] [4, 5])) := by
  refine ⟨wellFormed_ofIds (by decide), ?_⟩
  intro hmeet
  have hack : ∀ leader ∈ [1, 2], ∀ learner ∈ [4, 5],
      AckSet (ofIds [1, 2, 3] [4, 5])
        (oneRequest.recvAcks [{ from_ := learner, to_ := leader }]) := by
    intro leader hleader learner hlearner
    refine ⟨oneRequest, [], _, leader, _, lookup_oneRequest, rfl, ?_, ?_, rfl⟩
    · exact (by decide : ∀ id ∈ [1, 2], id ∈ (ofIds [1, 2, 3] [4, 5]).progress) leader hleader
    · intro m hm
      obtain rfl := List.mem_singleton.mp hm
      refine ⟨rfl, rfl, ?_, ?_⟩
      · exact (by decide : ∀ id ∈ [4, 5], id ∈ (ofIds [1, 2, 3] [4, 5]).progress) learner
          hlearner
      · exact (by decide : ∀ a ∈ [1, 2], ∀ b ∈ [4, 5], b ≠ a) leader hleader learner hlearner
  obtain ⟨⟨id, _, h₁, h₂⟩, _⟩ := hmeet _ _ (hack 1 (by decide) 4 (by decide))
    (hack 2 (by decide) 5 (by decide)) (by decide) (by decide)
  have hdisjoint : ∀ id ∈ (oneRequest.recvAcks [{ from_ := 4, to_ := 1 }]).keys,
      id ∉ (oneRequest.recvAcks [{ from_ := 5, to_ := 2 }]).keys := by decide
  exact hdisjoint id h₁ h₂

end ProgressSet

end RsRaft
