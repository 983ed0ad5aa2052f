/-
# Whoever is electable can be elected

`electable_unless_crossed` compares logs.  Here a run is carried on: from any state a cluster
can reach, if a majority has no crossed logs, its longest log gets to lead, whatever is in
flight, whatever the others of the majority voted for before, and without a turn of anybody
else.

The candidate lets its timer run out until its term is above those of the majority; what it
then asks each of them is granted, for a vote of a new term depends on the log alone.  The
replies are counted one by one, and the last of them, if not an earlier one, completes the
quorum.
-/

import RaftPlayground.Safety.Electable
import RaftPlayground.Safety.Overlap
import RaftPlayground.Safety.Timeout

namespace RaftPlayground
namespace Safety

open Protocol Server Cluster

/-- The node took no turn in the steps, and is as it was. -/
def Rests (z : NodeId) (h : List (Step Cluster Action)) (c c' : Cluster) : Prop :=
  turns z h = [] ∧ c'.nodes z = c.nodes z

section

variable {cfg : Config} {started : NodeId → ℕ} {h : List (Step Cluster Action)} {c : Cluster}

theorem Rests.trans {z : NodeId} {h₁ h₂ : List (Step Cluster Action)} {c₁ c₂ : Cluster}
    (hfirst : Rests z h₁ c c₁) (hthen : Rests z h₂ c₁ c₂) : Rests z (h₂ ++ h₁) c c₂ := by
  refine ⟨?_, hthen.2.trans hfirst.2⟩
  rw [turns, List.filterMap_append]
  exact List.append_eq_nil_iff.2 ⟨hthen.1, hfirst.1⟩

/-- Whoever is not called rests. -/
theorem rests_of_next {c' : Cluster} {a : Action} {k : Call} (hnext : c.next cfg a c')
    (hk : c.callOf a = some k) {z : NodeId} (hz : z ≠ k.id) : Rests z [⟨c, a, c'⟩] c c' := by
  rcases turnOf_cases hnext z with ⟨hnone, hsame⟩ | ⟨k', _, hk', rfl, _⟩
  · exact ⟨List.filterMap_cons_none hnone, hsame⟩
  · exact absurd (congrArg Call.id (Option.some.inj (hk'.symm.trans hk))) hz

/-- Any instant from the clock on will do for a turn. -/
theorem admits_of_run (hrun : ClusterRun cfg started h c) (id : NodeId) {now : ℕ}
    (hnow : c.clock ≤ now) : c.Admits id ⟨now, 150⟩ := by
  have hrange := (timer_of_run (hrun.turns_run id)).range
  refine ⟨hnow, ?_, ?_⟩
  · rw [hrange]
    exact le_refl 150
  · rw [hrange]
    exact (by decide : 150 < 300)

/-- A node may tick at any instant from the clock on. -/
theorem exists_tick (hrun : ClusterRun cfg started h c) {id : NodeId} (hid : id ∈ cfg.members)
    {now : ℕ} (hnow : c.clock ≤ now) {r : Node × Effects}
    (hhandle : (c.nodes id).handle ⟨now, 150⟩ .tick = some r) :
    ∃ a c', c.next cfg a c' ∧ (∀ z, z ≠ id → Rests z [⟨c, a, c'⟩] c c') ∧ c'.nodes id = r.1 ∧
      c'.net = c.net ++ r.2.packets id := by
  have hnext := next_tick hid (admits_of_run hrun id hnow) hhandle
  exact ⟨_, _, hnext, fun z hz => rests_of_next hnext rfl hz, Function.update_self .., rfl⟩

/-- A packet may be delivered at once. -/
theorem exists_deliver (hrun : ClusterRun cfg started h c) {p : Packet} (hp : p ∈ c.net)
    {r : Node × Effects}
    (hhandle : (c.nodes p.dst).handle ⟨c.clock, 150⟩ (.msg p.msg) = some r) :
    ∃ a c', c.next cfg a c' ∧ (∀ z, z ≠ p.dst → Rests z [⟨c, a, c'⟩] c c') ∧
      c'.nodes p.dst = r.1 ∧ c'.net = c.net.erase p ++ p.answer r.2 ++ r.2.packets p.dst := by
  have hnext := @next_deliver cfg _ _ _ _ _ hp (admits_of_run hrun p.dst le_rfl) hhandle
  exact ⟨_, _, hnext, fun z hz => rests_of_next hnext rfl hz, Function.update_self .., rfl⟩

/-- What is in flight and not delivered stays in flight. -/
theorem mem_net_of_ne {p q : Packet} {net l l' : List Packet} (hq : q ∈ net) (hne : q ≠ p) :
    q ∈ net.erase p ++ l ++ l' :=
  List.mem_append_left _ (List.mem_append_left _ ((List.mem_erase_of_ne hne).2 hq))

/-- Every peer gets one request of `request_vote`. -/
theorem mem_requestVote_of_mem {s : Seeds} {y : NodeId} (hy : y ∈ s.ids) (es : Entries) (term : ℕ) :
    (y, ⟨s.nodeId, term, es.lastIndex, es.lastTerm⟩) ∈ s.requestVote es term := by
  obtain ⟨seed, hseed, rfl⟩ := List.mem_map.1 hy
  exact List.mem_map_of_mem hseed

/-- **One more candidacy.**  Once its timer has run out, a node that does not lead raises its
term and asks every peer for its vote. -/
theorem candidacy_next (hrun : ClusterRun cfg started h c) {x : NodeId} (hx : x ∈ cfg.members)
    (hlead : (c.nodes x).volatile.status ≠ .leader)
    (hterm : (c.nodes x).persistent.term + 1 < 2 ^ 64) :
    ∃ a c', c.next cfg a c' ∧ (∀ z, z ≠ x → Rests z [⟨c, a, c'⟩] c c') ∧
      (c'.nodes x).volatile.status ≠ .leader ∧
      (c'.nodes x).persistent.term = (c.nodes x).persistent.term + 1 ∧
      (c'.nodes x).persistent.entries = (c.nodes x).persistent.entries ∧
      ∀ y ∈ cfg.members, y ≠ x → .voteReq x y
        (voteReqOf (c.nodes x) ((c.nodes x).persistent.term + 1)) ∈ c'.net := by
  let v := (c.nodes x).volatile
  let env : Env := ⟨max c.clock (v.electionTimeout + v.electionTimeoutRange.duration), 150⟩
  have hplaced := hrun.placed x
  obtain ⟨peer, hpeer, hne⟩ := cfg.exists_peer x
  have hpeers : v.seeds.isEmpty = false :=
    Seeds.isEmpty_eq_false.2 (List.ne_nil_of_mem ((hplaced.mem_ids peer).2 ⟨hpeer, hne⟩))
  have hdue : v.electionTimeoutElapsed env.now = true := by
    have hnow : v.electionTimeout + v.electionTimeoutRange.duration ≤ env.now := le_max_right _ _
    rw [Volatile.electionTimeoutElapsed, decide_eq_true_eq]
    omega
  have hhandle :
      (c.nodes x).handle env .tick = some ((c.nodes x).switchToCandidate env) := by
    rw [Node.handle, Node.onTick, if_neg (Bool.eq_false_iff.1 hpeers), if_neg hlead, if_pos hdue]
  obtain ⟨a, c', hnext, hothers, hself, hnet⟩ := exists_tick hrun hx (le_max_left _ _) hhandle
  have hraised := Node.switchToCandidate_term env hterm
  refine ⟨a, c', hnext, hothers, ?_, ?_, ?_, ?_⟩
  · rw [hself]
    simp
  · rw [hself, hraised]
  · rw [hself]
    rfl
  · intro y hy hyx
    have hasked := mem_requestVote_of_mem ((hplaced.mem_ids y).2 ⟨hy, hyx⟩)
      (c.nodes x).persistent.entries ((c.nodes x).persistent.term + 1)
    rw [hnet, List.mem_append, Effects.mem_packets]
    refine Or.inr (Or.inl ⟨(y, voteReqOf (c.nodes x) ((c.nodes x).persistent.term + 1)), ?_, rfl⟩)
    rw [← hraised] at hasked ⊢
    exact hasked

/-- **As many candidacies as it takes** to get to a term above the node's own. -/
theorem candidacies_run {x : NodeId} (hx : x ∈ cfg.members) {T : ℕ} (hT : T < 2 ^ 64)
    (hrun : ClusterRun cfg started h c) (hlead : (c.nodes x).volatile.status ≠ .leader)
    (hterm : (c.nodes x).persistent.term < T) :
    ∃ h' c', ClusterRun cfg started (h' ++ h) c' ∧ (∀ z, z ≠ x → Rests z h' c c') ∧
      (c'.nodes x).persistent.term = T ∧
      ∀ y ∈ cfg.members, y ≠ x → .voteReq x y (voteReqOf (c.nodes x) T) ∈ c'.net := by
  obtain ⟨k, hk⟩ := Nat.exists_eq_add_of_lt hterm
  induction k generalizing h c with
  | zero =>
      obtain ⟨a, c', hnext, hothers, _, hterm', _, hasked⟩ :=
        candidacy_next hrun hx hlead (by omega)
      have hT' : (c.nodes x).persistent.term + 1 = T := by omega
      exact ⟨[⟨c, a, c'⟩], c', hrun.cons hnext, hothers, hterm'.trans hT', hT' ▸ hasked⟩
  | succ k ih =>
      obtain ⟨a, c₁, hnext, hothers, hlead₁, hterm₁, hlog, _⟩ :=
        candidacy_next hrun hx hlead (by omega)
      obtain ⟨h', c', hrun', hothers', hterm', hasked⟩ :=
        ih (hrun.cons hnext) hlead₁ (by omega) (by omega)
      refine ⟨h' ++ [⟨c, a, c₁⟩], c', by rwa [List.append_assoc], fun z hz => ?_, hterm', ?_⟩
      · exact (hothers z hz).trans (hothers' z hz)
      · intro y hy hyx
        have hsame : voteReqOf (c₁.nodes x) T = voteReqOf (c.nodes x) T := by
          have hplaced := hrun.placed x
          have hplaced₁ := ClusterRun.placed (hrun.cons hnext) x
          rw [voteReqOf, voteReqOf, hlog, hplaced.nodeId_eq, hplaced₁.nodeId_eq]
        exact hsame ▸ hasked y hy hyx

/-- A vote request of a new term, to a log that is nowhere ahead, is granted. -/
theorem handle_granted {n : Node} {req : VoteReq} (env : Env)
    (hterm : n.persistent.term < req.term)
    (hlog : position n ≤ (req.lastLogIndex, req.lastLogTerm)) :
    ∃ n', n.handle env (.msg (.requestVote req.term req.candidateId req.lastLogIndex
      req.lastLogTerm)) = some (n', { reply := some (req.term, true) }) := by
  refine ⟨{ persistent := { n.persistent with term := req.term }, volatile :=
    { n.volatile with votedFor := some req.candidateId, status := .follower } }, ?_⟩
  rw [Node.handle, Node.onRequestVote, if_neg (not_lt.2 hterm.le), if_pos (Or.inl hterm),
    if_pos ⟨hlog.1, hlog.2⟩]

/-- A granted vote makes a node of its term a leader, or is counted and leaves the quorum open. -/
theorem handle_counted {n : Node} {env : Env} {y : NodeId} (hlead : n.volatile.status ≠ .leader) :
    ∃ r, n.handle env (.msg (.voteReceived y n.persistent.term true)) = some r ∧
      r.1.persistent = n.persistent ∧
      (r.1.volatile.status = .leader ∨
        r.1.volatile.status ≠ .leader ∧ r.1.volatile.tally = insert y n.volatile.tally ∧
          r.1.volatile.haveWeReachedQuorum = false) := by
  let v := { n.volatile with tally := insert y n.volatile.tally }
  have hlive : ¬(n.persistent.term > n.persistent.term ∨ n.volatile.status = .leader) :=
    fun h => h.elim (lt_irrefl _) hlead
  rw [Node.handle, Node.onVoteReceived, if_neg hlive, if_neg (lt_irrefl _), if_pos rfl]
  by_cases hquorum : v.haveWeReachedQuorum = true
  · exact ⟨_, congrArg some (if_pos hquorum), rfl, Or.inl rfl⟩
  · exact ⟨_, congrArg some (if_neg hquorum), rfl,
      Or.inr ⟨hlead, rfl, Bool.eq_false_iff.2 hquorum⟩⟩

/-- **One more vote.**  A member of a lower term whose log is not ahead grants the request in
flight to it, and the candidate counts the vote, if it does not lead by then. -/
theorem vote_run {x y : NodeId} {req : VoteReq} (hrun : ClusterRun cfg started h c) (hxy : y ≠ x)
    (hreq : .voteReq x y req ∈ c.net) (hterm : (c.nodes x).persistent.term = req.term)
    (hbehind : (c.nodes y).persistent.term < req.term)
    (hlog : position (c.nodes y) ≤ (req.lastLogIndex, req.lastLogTerm)) :
    ∃ h' c', ClusterRun cfg started (h' ++ h) c' ∧
      (∀ z, z ≠ x → z ≠ y → Rests z h' c c') ∧
      (∀ z, z ≠ y → .voteReq x z req ∈ c.net → .voteReq x z req ∈ c'.net) ∧
      (c'.nodes x).persistent.term = req.term ∧
      ((c.nodes x).volatile.status = .leader → (c'.nodes x).volatile.status = .leader) ∧
      ((c'.nodes x).volatile.status = .leader ∨
        insert y (c.nodes x).volatile.tally ⊆ (c'.nodes x).volatile.tally ∧
          (c'.nodes x).volatile.haveWeReachedQuorum = false) := by
  -- the request reaches the voter
  obtain ⟨n, hgranted⟩ := handle_granted ⟨c.clock, 150⟩ hbehind hlog
  obtain ⟨a₁, c₁, hnext₁, hothers₁, _, hnet₁⟩ := exists_deliver hrun hreq hgranted
  have hx₁ : c₁.nodes x = c.nodes x := (hothers₁ x hxy.symm).2
  have hresp : .voteResp y x req.term true ∈ c₁.net := by
    rw [hnet₁]
    exact List.mem_append_left _ (List.mem_append_right _ List.mem_cons_self)
  -- the reply reaches the candidate
  have hrun₁ : ClusterRun cfg started _ c₁ := hrun.cons hnext₁
  have hcount : ∃ r, (c₁.nodes x).handle ⟨c₁.clock, 150⟩
      (.msg (.voteReceived y req.term true)) = some r ∧ r.1.persistent.term = req.term ∧
      ((c.nodes x).volatile.status = .leader → r.1.volatile.status = .leader) ∧
      (r.1.volatile.status = .leader ∨
        insert y (c.nodes x).volatile.tally ⊆ r.1.volatile.tally ∧
          r.1.volatile.haveWeReachedQuorum = false) := by
    rw [hx₁, ← hterm]
    by_cases hlead : (c.nodes x).volatile.status = .leader
    · refine ⟨(c.nodes x, {}), ?_, rfl, fun _ => hlead, Or.inl hlead⟩
      rw [Node.handle, Node.onVoteReceived, if_pos (Or.inr hlead)]
    · obtain ⟨r, hr, hpersistent, hwon⟩ := handle_counted hlead
      exact ⟨r, hr, by rw [hpersistent], fun h => absurd h hlead,
        hwon.imp_right fun hopen => ⟨hopen.2.1.ge, hopen.2.2⟩⟩
  obtain ⟨r, hr, hterm', hstays, hwon⟩ := hcount
  obtain ⟨a₂, c₂, hnext₂, hothers₂, hx₂, hnet₂⟩ := exists_deliver hrun₁ hresp hr
  have hx₂ : c₂.nodes x = r.1 := hx₂
  refine ⟨[⟨c₁, a₂, c₂⟩, ⟨c, a₁, c₁⟩], c₂, hrun₁.cons hnext₂, ?_, ?_, hx₂ ▸ hterm', hx₂ ▸ hstays,
    hx₂ ▸ hwon⟩
  · exact fun z hzx hzy => (hothers₁ z hzy).trans (hothers₂ z hzx)
  · intro z hzy hz
    have hne : Packet.voteReq x z req ≠ .voteReq x y req :=
      fun heq => hzy (Packet.voteReq.inj heq).2.1
    rw [hnet₂, hnet₁]
    exact mem_net_of_ne (mem_net_of_ne hz hne) (by rintro ⟨⟩)

/-- **The votes of a list of members**, one after the other. -/
theorem votes_run {x : NodeId} {req : VoteReq} {l : List NodeId} (hnd : l.Nodup) (hx : x ∉ l)
    (hrun : ClusterRun cfg started h c) (hterm : (c.nodes x).persistent.term = req.term)
    (hvoters : ∀ y ∈ l, .voteReq x y req ∈ c.net ∧ (c.nodes y).persistent.term < req.term ∧
      position (c.nodes y) ≤ (req.lastLogIndex, req.lastLogTerm)) :
    ∃ h' c', ClusterRun cfg started (h' ++ h) c' ∧
      (∀ z, z ≠ x → z ∉ l → Rests z h' c c') ∧
      (c'.nodes x).persistent.term = req.term ∧
      ((c.nodes x).volatile.status = .leader → (c'.nodes x).volatile.status = .leader) ∧
      ((c'.nodes x).volatile.status = .leader ∨
        (c.nodes x).volatile.tally ∪ l.toFinset ⊆ (c'.nodes x).volatile.tally ∧
          (l ≠ [] ∨ (c.nodes x).volatile.haveWeReachedQuorum = false →
            (c'.nodes x).volatile.haveWeReachedQuorum = false)) := by
  induction l generalizing h c with
  | nil =>
      exact ⟨[], c, hrun, fun _ _ _ => ⟨rfl, rfl⟩, hterm, id,
        Or.inr ⟨by simp, fun hopen => hopen.resolve_left (absurd rfl)⟩⟩
  | cons y l ih =>
      rw [List.forall_mem_cons] at hvoters
      obtain ⟨⟨hreq, hbehind, hlog⟩, hrest⟩ := hvoters
      obtain ⟨hyl, hnd⟩ := List.nodup_cons.1 hnd
      obtain ⟨hxy, hxl⟩ := not_or.1 (mt List.mem_cons.2 hx)
      obtain ⟨h₁, c₁, hrun₁, hothers₁, hnet₁, hterm₁, hstays₁, hwon₁⟩ :=
        vote_run hrun (Ne.symm hxy) hreq hterm hbehind hlog
      have hrest₁ : ∀ z ∈ l, .voteReq x z req ∈ c₁.net ∧ (c₁.nodes z).persistent.term < req.term ∧
          position (c₁.nodes z) ≤ (req.lastLogIndex, req.lastLogTerm) := by
        intro z hz
        obtain ⟨hreq', hbehind', hlog'⟩ := hrest z hz
        have hzy : z ≠ y := fun heq => hyl (heq ▸ hz)
        rw [(hothers₁ z (fun heq => hxl (heq ▸ hz)) hzy).2]
        exact ⟨hnet₁ z hzy hreq', hbehind', hlog'⟩
      obtain ⟨h', c', hrun', hothers', hterm', hstays', hwon'⟩ := ih hnd hxl hrun₁ hterm₁ hrest₁
      refine ⟨h' ++ h₁, c', by rwa [List.append_assoc], ?_, hterm', hstays' ∘ hstays₁, ?_⟩
      · intro z hzx hz
        obtain ⟨hzy, hzl⟩ := not_or.1 (mt List.mem_cons.2 hz)
        exact (hothers₁ z hzx hzy).trans (hothers' z hzx hzl)
      · rcases hwon₁ with hlead | ⟨hcounted, hopen⟩
        · exact Or.inl (hstays' hlead)
        · refine hwon'.imp_right fun ⟨hcounted', hopen'⟩ => ⟨?_, fun _ => ?_⟩
          · intro z hz
            have hsub := Finset.union_subset_iff.1 hcounted'
            rw [List.toFinset_cons, Finset.mem_union, Finset.mem_insert] at hz
            rcases hz with hz | rfl | hz
            · exact hsub.1 (hcounted (Finset.mem_insert_of_mem hz))
            · exact hsub.1 (hcounted (Finset.mem_insert_self _ _))
            · exact hsub.2 hz
          · exact hopen' (Or.inr hopen)

/-- The cluster a member counts is the whole cluster. -/
theorem clusterSize_of_run (hrun : ClusterRun cfg started h c) {x : NodeId} (hx : x ∈ cfg.members) :
    (c.nodes x).volatile.clusterSize = cfg.members.toFinset.card := by
  have hplaced := hrun.placed x
  have hids : (c.nodes x).volatile.seeds.ids.toFinset = cfg.members.toFinset.erase x := by
    ext p
    rw [Finset.mem_erase, List.mem_toFinset, List.mem_toFinset, hplaced.mem_ids, and_comm]
  have helecting : Electing cfg.members.toFinset x { (c.nodes x).volatile with tally := ∅ } :=
    { member := List.mem_toFinset.2 hx
      seeds := hids
      tally := fun _ hp => absurd hp (Finset.notMem_empty _) }
  exact helecting.clusterSize

/-- **The longest log of a majority can win** any term above theirs, in a continuation of the
run in which nobody else takes a turn. -/
theorem top_can_win (hrun : ClusterRun cfg started h c) {Q : Finset NodeId}
    (hQ : Majority cfg.members.toFinset Q) {x : NodeId} (hx : x ∈ Q)
    (htop : ∀ y ∈ Q, position (c.nodes y) ≤ position (c.nodes x))
    (hlead : (c.nodes x).volatile.status ≠ .leader) {T : ℕ} (hT : T < 2 ^ 64)
    (hterms : ∀ y ∈ Q, (c.nodes y).persistent.term < T) :
    ∃ h' c', ClusterRun cfg started (h' ++ h) c' ∧ (∀ z ∉ Q, Rests z h' c c') ∧
      (c'.nodes x).volatile.status = .leader ∧ (c'.nodes x).persistent.term = T := by
  have hmember : ∀ y ∈ Q, y ∈ cfg.members := fun y hy => List.mem_toFinset.1 (hQ.1 hy)
  obtain ⟨h₁, c₁, hrun₁, hothers₁, hterm₁, hasked⟩ :=
    candidacies_run (hmember x hx) hT hrun hlead (hterms x hx)
  have hvoters : ∀ y ∈ (Q.erase x).toList, .voteReq x y (voteReqOf (c.nodes x) T) ∈ c₁.net ∧
      (c₁.nodes y).persistent.term < T ∧
      position (c₁.nodes y) ≤ position (c.nodes x) := by
    intro y hy
    obtain ⟨hyx, hyQ⟩ := Finset.mem_erase.1 (Finset.mem_toList.1 hy)
    rw [(hothers₁ y hyx).2]
    exact ⟨hasked y (hmember y hyQ) hyx, hterms y hyQ, htop y hyQ⟩
  obtain ⟨h₂, c₂, hrun₂, hothers₂, hterm₂, _, hwon⟩ :=
    votes_run (Q.erase x).nodup_toList (by simp) hrun₁ hterm₁ hvoters
  refine ⟨h₂ ++ h₁, c₂, by rwa [List.append_assoc], ?_, ?_, hterm₂⟩
  · intro z hz
    have hzx : z ≠ x := fun heq => hz (heq ▸ hx)
    have hzl : z ∉ (Q.erase x).toList :=
      fun hmem => hz (Finset.mem_of_mem_erase (Finset.mem_toList.1 hmem))
    exact (hothers₁ z hzx).trans (hothers₂ z hzx hzl)
  · by_contra hnot
    obtain ⟨hcounted, hopen⟩ := hwon.resolve_left hnot
    -- the majority without the candidate is in its tally, which would be a quorum
    have htally : (Q.erase x).card ≤ (c₂.nodes x).volatile.tally.card := by
      refine Finset.card_le_card ((Finset.union_subset_iff.1 hcounted).2.trans' ?_)
      rw [Finset.toList_toFinset]
    have hsize := clusterSize_of_run hrun₂ (hmember x hx)
    have hcard := Finset.card_erase_add_one hx
    have htwo : 2 ≤ cfg.members.toFinset.card :=
      (List.toFinset_card_of_nodup cfg.nodup).symm ▸ cfg.two_le
    have hmaj := hQ.2
    have hne : (Q.erase x).toList ≠ [] := by
      rw [ne_eq, Finset.toList_eq_nil, ← Finset.card_eq_zero]
      omega
    have hquorum := hopen (Or.inl hne)
    rw [Volatile.haveWeReachedQuorum, decide_eq_false_iff_not, hsize] at hquorum
    omega

/-- **Whoever is electable can be elected.**  In any state a cluster can reach, a majority without
crossed logs has a member that leads already, or that can win any term above theirs, in a
continuation of the run in which nobody outside of the majority takes a turn. -/
theorem majority_can_elect (hrun : ClusterRun cfg started h c) {Q : Finset NodeId}
    (hQ : Majority cfg.members.toFinset Q)
    (huncrossed : ∀ x ∈ Q, ∀ y ∈ Q, ¬ Crossed (c.nodes x) (c.nodes y)) :
    ∃ x ∈ Q, (c.nodes x).volatile.status = .leader ∨
      ∀ T < 2 ^ 64, (∀ y ∈ Q, (c.nodes y).persistent.term < T) →
        ∃ h' c', ClusterRun cfg started (h' ++ h) c' ∧
          (∀ z ∉ Q, turns z h' = [] ∧ c'.nodes z = c.nodes z) ∧
          (c'.nodes x).volatile.status = .leader ∧ (c'.nodes x).persistent.term = T := by
  have htotal : ∀ x ∈ Q, ∀ y ∈ Q, position (c.nodes x) ≤ position (c.nodes y) ∨
      position (c.nodes y) ≤ position (c.nodes x) :=
    fun x hx y hy => not_crossed_iff.1 (huncrossed x hx y hy)
  have hne : Q.Nonempty := by
    rw [← Finset.card_pos]
    have hmaj := hQ.2
    omega
  obtain ⟨x, hx, htop⟩ := exists_top_iff_total.2 htotal Q subset_rfl hne
  refine ⟨x, hx, or_iff_not_imp_left.2 fun hlead T hT hterms => ?_⟩
  exact top_can_win hrun hQ hx htop hlead hT hterms

end

/-- The two members that do not lead the first term can elect one of them in the term `7`, and the
leader of the first term does not take part. -/
theorem majority_can_elect_second : ∃ h c, ClusterRun .trio (fun _ => 0) h c ∧
    (c.nodes (localhost 2113)).volatile.status = .leader ∧
    ∃ x ∈ ({localhost 2114, localhost 2115} : Finset NodeId), ∃ h' c',
      ClusterRun .trio (fun _ => 0) (h' ++ h) c' ∧
        turns (localhost 2113) h' = [] ∧ c'.nodes (localhost 2113) = c.nodes (localhost 2113) ∧
        (c'.nodes x).volatile.status = .leader ∧ (c'.nodes x).persistent.term = 7 := by
  let Q : Finset NodeId := {localhost 2114, localhost 2115}
  obtain ⟨h, c, hrun, hleads, hnone, huncrossed, hterms⟩ := ClusterRun.exists_of_replay .trio
    firstElection
    (fun _ c => (c.nodes (localhost 2113)).volatile.status = .leader ∧
      (∀ x ∈ Q, (c.nodes x).volatile.status ≠ .leader) ∧
      (∀ x ∈ Q, ∀ y ∈ Q, ¬ Crossed (c.nodes x) (c.nodes y)) ∧
      ∀ y ∈ Q, (c.nodes y).persistent.term < 7) (by decide +kernel)
  obtain ⟨x, hx, hwins⟩ := majority_can_elect hrun (Q := Q) (by unfold Majority; decide) huncrossed
  obtain ⟨h', c', hrun', hothers, hlead, hterm⟩ :=
    hwins.resolve_left (hnone x hx) 7 (by decide) hterms
  obtain ⟨hturns, hsame⟩ := hothers (localhost 2113) (by decide)
  exact ⟨h, c, hrun, hleads, x, hx, h', c', hrun', hturns, hsame, hlead, hterm⟩

end Safety
end RaftPlayground
