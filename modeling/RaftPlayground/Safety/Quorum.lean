/-
# Leaders have the votes of their term

The tally of a node is a set of ids: it does not say in which term a vote was
cast, and `switch_to_candidate` does not empty it.  In the runs where every
election starts with an empty tally (`StartsClean`) and no follower completes one
(`CountsRunning`), a node becomes leader from candidate only, and the peers that
granted it their vote in the new leader's term are, with itself, more than half
of the cluster.

The invariant reads the tally against the turns taken so far (`Tallied`): every
peer in it granted a vote in the term of the node's latest candidacy.  A node's
candidacies have increasing terms, so if the node runs in its own term, that term
is the latest.
-/

import RaftPlayground.Safety.Vote
import RaftPlayground.Server.Upkeep

namespace RaftPlayground
namespace Safety

open Protocol Server Cluster

/-- The node was handed the granted vote of the peer for the term. -/
def Heard (ts : List (Step Node Turn)) (p : NodeId) (T : ℕ) : Prop :=
  ∃ t ∈ ts, t.act.input = .msg (.voteReceived p T true)

/-- The conditions on a turn under which a leader has the votes of its term. -/
structure WinsOwn (env : Env) (n : Node) (i : Input) : Prop where
  startsClean : StartsClean env n i
  countsRunning : CountsRunning n i
  termFits : TermFits env n i

instance (env : Env) (n : Node) (i : Input) : Decidable (WinsOwn env n i) :=
  decidable_of_iff (StartsClean env n i ∧ CountsRunning n i ∧ TermFits env n i)
    ⟨fun h => ⟨h.1, h.2.1, h.2.2⟩, fun h => ⟨h.1, h.2, h.3⟩⟩

/-- The peer granted the node its vote in the term, and the node was handed it. -/
def VotedFor (d : Diary) (p id : NodeId) (T : ℕ) : Prop :=
  Granted (d p) T id ∧ Heard (d id) p T

section

variable {members : List NodeId} {d : Diary} {t : Step Node Turn} {id id' : NodeId}

theorem ran_turn {x : NodeId} {T : ℕ} (h : Ran (d x) T) : Ran (Diary.turn d id t x) T :=
  exists_mem_turn h

theorem granted_turn {x cand : NodeId} {T : ℕ} (h : Granted (d x) T cand) :
    Granted (Diary.turn d id t x) T cand :=
  exists_mem_turn h

theorem heard_turn {x p : NodeId} {T : ℕ} (h : Heard (d x) p T) :
    Heard (Diary.turn d id t x) p T :=
  exists_mem_turn h

/-- What the turns say about the tally of a node. -/
structure Tallied (members : List NodeId) (d : Diary) (id : NodeId) (n : Node) : Prop where
  ran_le : ∀ T, Ran (d id) T → T ≤ n.persistent.term
  tally : ∀ p ∈ n.volatile.tally, p ∈ members ∧ p ≠ id ∧
    ∃ T, VotedFor d p id T ∧ Ran (d id) T ∧ ∀ T', Ran (d id) T' → T' ≤ T

/-- What the turns say about a packet in flight. -/
def Sent (d : Diary) : Packet → Prop
  | .voteReq src _ req => Ran (d src) req.term
  | .voteResp src dst T granted => granted = true → Ran (d dst) T ∧ Granted (d src) T dst
  | .entriesReq .. | .entriesResp .. => True

/-- What the turns say about an input of the node `id`. -/
def Foreseen (members : List NodeId) (d : Diary) (id : NodeId) : Input → Prop
  | .msg (.requestVote term cand _ _) => Ran (d cand) term
  | .msg (.voteReceived p T granted) =>
    p ∈ members ∧ p ≠ id ∧ (granted = true → Ran (d id) T ∧ Granted (d p) T id)
  | _ => True

theorem Sent.turn {p : Packet} (h : Sent d p) : Sent (Diary.turn d id t) p := by
  cases p with
  | voteReq => exact ran_turn h
  | voteResp => exact fun hg => ⟨ran_turn (h hg).1, granted_turn (h hg).2⟩
  | entriesReq | entriesResp => trivial

theorem foreseen_of_origin {i : Input} (h : Origin members (Sent d) id i) :
    Foreseen members d id i := by
  cases h with
  | tick => trivial
  | client req => cases req <;> trivial
  | packet p hr hdst hp =>
      subst hdst
      cases p with
      | voteReq src dst req =>
          have hsigned : req.candidateId = src := hr.signed
          exact hsigned ▸ hp
      | voteResp => exact ⟨hr.src_mem, hr.ne, hp⟩
      | entriesReq | entriesResp => trivial

/-- The answer to a packet is known from the turn that gave it. -/
theorem Sent.answer {p q : Packet} {env : Env} {n n' : Node} {eff : Effects} (h : Sent d p)
    (hr : p.Routed members) (ht : n.Turned env (.msg p.msg) n' eff) (hq : q ∈ p.answer eff) :
    Sent (Diary.turn d p.dst ⟨n, ⟨env, .msg p.msg, eff⟩, n'⟩) q := by
  cases p with
  | voteReq src dst req =>
      obtain ⟨T, granted, hreply, rfl⟩ := Packet.mem_answer_voteReq.1 hq
      rintro rfl
      have hsigned : req.candidateId = src := hr.signed
      obtain rfl := ht.granted_term hreply
      exact ⟨ran_turn h, _, mem_turn_self, _, _, _, by rw [← hsigned]; rfl, hreply⟩
  | entriesReq =>
      obtain ⟨_, _, _, rfl⟩ := Packet.mem_answer_entriesReq.1 hq
      trivial
  | voteResp | entriesResp => simp [Packet.answer] at hq

/-- A turn of another node. -/
theorem Tallied.other {n : Node} (h : Tallied members d id n) (hne : id ≠ id') :
    Tallied members (Diary.turn d id' t) id n := by
  have hsame : Diary.turn d id' t id = d id := Function.update_of_ne hne _ _
  constructor
  case ran_le =>
    intro T hT
    rw [hsame] at hT
    exact h.ran_le T hT
  case tally =>
    intro p hp
    obtain ⟨hm, hpid, T, ⟨hg, hh⟩, hr, hmax⟩ := h.tally p hp
    refine ⟨hm, hpid, T, ⟨granted_turn hg, heard_turn hh⟩, ran_turn hr, ?_⟩
    rw [hsame]
    exact hmax

/-- A turn that does not run the node keeps the tally, or adds a vote for the
node's own term. -/
theorem Tallied.keep {n n' : Node} {turn : Turn} (h : Tallied members d id n)
    (hrun : ∀ T, ¬ Runs ⟨n, turn, n'⟩ T) (hterm : n.persistent.term ≤ n'.persistent.term)
    (htally : ∀ p ∈ n'.volatile.tally, p ∈ n.volatile.tally ∨ (p ∈ members ∧ p ≠ id ∧
      ∃ T, VotedFor (Diary.turn d id ⟨n, turn, n'⟩) p id T ∧ Ran (d id) T ∧
        T = n.persistent.term)) :
    Tallied members (Diary.turn d id ⟨n, turn, n'⟩) id n' := by
  have hran : ∀ {T}, Ran (Diary.turn d id ⟨n, turn, n'⟩ id) T → Ran (d id) T := by
    intro T hT
    rw [Diary.turn, Function.update_self] at hT
    exact (ran_cons.1 hT).resolve_left (hrun T)
  constructor
  case ran_le =>
    intro T hT
    have hle := h.ran_le T (hran hT)
    omega
  case tally =>
    intro p hp
    rcases htally p hp with hp | ⟨hm, hpid, T, hv, hr, rfl⟩
    · obtain ⟨hm, hpid, T, ⟨hg, hh⟩, hr, hmax⟩ := h.tally p hp
      exact ⟨hm, hpid, T, ⟨granted_turn hg, heard_turn hh⟩, ran_turn hr,
        fun T' hT' => hmax T' (hran hT')⟩
    · exact ⟨hm, hpid, _, hv, ran_turn hr, fun T' hT' => h.ran_le T' (hran hT')⟩

/-- Replication requests say nothing about votes. -/
theorem sent_of_voteReqs {eff : Effects} (h : eff.voteReqs = []) :
    ∀ p ∈ eff.packets id, Sent d p := by
  intro p hp
  rw [Effects.mem_packets, h] at hp
  rcases hp with ⟨_, hx, _⟩ | ⟨_, _, rfl⟩
  · simp at hx
  · trivial

/-- **Every turn keeps the tally accounted for**, and what it sends is known. -/
theorem Tallied.turned {env : Env} {n n' : Node} {i : Input} {eff : Effects}
    (h : Tallied members d id n) (hexp : Foreseen members d id i)
    (hcond : WinsOwn env n i) (ht : n.Turned env i n' eff) :
    Tallied members (Diary.turn d id ⟨n, ⟨env, i, eff⟩, n'⟩) id n' ∧
      ∀ p ∈ eff.packets id, Sent (Diary.turn d id ⟨n, ⟨env, i, eff⟩, n'⟩) p := by
  -- a granted vote of the own term, with this turn, is one of the latest candidacy
  have hcount : ∀ {p T}, i = .msg (.voteReceived p T true) → n.persistent.term = T →
      p ∈ members ∧ p ≠ id ∧
        ∃ T, VotedFor (Diary.turn d id ⟨n, ⟨env, i, eff⟩, n'⟩) p id T ∧ Ran (d id) T ∧
          T = n.persistent.term := by
    rintro p T rfl rfl
    obtain ⟨hm, hpid, hg⟩ := hexp
    exact ⟨hm, hpid, _, ⟨granted_turn (hg rfl).2, _, mem_turn_self, rfl⟩, (hg rfl).1, rfl⟩
  cases ht with
  | idle quiet silent calm =>
      refine ⟨h.keep ?_ le_rfl fun p hp => Or.inl hp, sent_of_voteReqs silent.1⟩
      rintro T ⟨hi, hdue, _⟩
      exact calm hi hdue
  | heartbeat _ lead =>
      refine ⟨h.keep ?_ le_rfl fun p hp => Or.inl hp, sent_of_voteReqs rfl⟩
      rintro T ⟨_, ⟨_, hne, _⟩, _⟩
      exact hne lead
  | candidacy due =>
      have hterm := Node.switchToCandidate_term env (hcond.termFits due)
      have hempty : (n.switchToCandidate env).1.volatile.tally = ∅ := hcond.startsClean due
      refine ⟨⟨?_, ?_⟩, ?_⟩
      · intro T hT
        rw [Diary.turn, Function.update_self] at hT
        rcases ran_cons.1 hT with ⟨_, _, rfl⟩ | hT
        · exact le_rfl
        · have hle := h.ran_le T hT
          omega
      · intro p hp
        rw [hempty] at hp
        simp at hp
      · intro p hp
        rcases Effects.mem_packets.1 hp with ⟨x, hx, rfl⟩ | ⟨x, hx, _⟩
        · have hreq := (Seeds.mem_requestVote hx).2
          exact ⟨_, mem_turn_self, rfl, due, by rw [hreq]; rfl⟩
        · simp at hx
  | voteStale | voteGranted le | voteRefused le | voteRepeated | outrun _ lt | entriesStale
  | entriesUnknown le | entriesEmpty le | entriesStored le | advanced | backedOff
  | appendRefused | appendStored | appendPending =>
      refine ⟨h.keep not_runs_msg ?_ fun p hp => Or.inl hp, sent_of_voteReqs rfl⟩
      first
        | exact le_rfl
        | exact le
        | exact lt.le
  | counted lead eq =>
      refine ⟨h.keep not_runs_msg le_rfl ?_, sent_of_voteReqs rfl⟩
      intro q hq
      rcases Finset.mem_insert.1 hq with rfl | hq
      · exact Or.inr (hcount rfl eq)
      · exact Or.inl hq
  | elected =>
      refine ⟨h.keep not_runs_msg le_rfl ?_, sent_of_voteReqs rfl⟩
      intro q hq
      simp at hq

theorem Tallied.start (id : NodeId) (seeds : List Seed) (now : ℕ) :
    Tallied members (diary []) id (Node.start id seeds now) where
  ran_le _ h := absurd h (by simp [Ran, diary, turns])
  tally _ h := absurd h (Finset.notMem_empty _)

/-- Everyone in the tally of a node that runs in its own term granted it the vote. -/
theorem Tallied.votedFor {n : Node} (h : Tallied members d id n)
    (hran : Ran (d id) n.persistent.term) {p : NodeId} (hp : p ∈ n.volatile.tally) :
    p ∈ members ∧ p ≠ id ∧ VotedFor d p id n.persistent.term := by
  obtain ⟨hm, hpid, T, hv, hr, hmax⟩ := h.tally p hp
  obtain rfl := le_antisymm (h.ran_le T hr) (hmax _ hran)
  exact ⟨hm, hpid, hv⟩

/-- **A turn that wins an election**: the node was a candidate, ran in the term, and the
peers it counted, with the last one, granted it their vote in the term. -/
theorem Tallied.wins {env : Env} {n n' : Node} {i : Input} {eff : Effects}
    (h : Tallied members d id n) (hexp : Foreseen members d id i) (hcond : WinsOwn env n i)
    (ht : n.Turned env i n' eff) (hbefore : n.volatile.status ≠ .leader)
    (hafter : n'.volatile.status = .leader) :
    n.volatile.status = .candidate ∧ Ran (d id) n'.persistent.term ∧
      ∃ Q : Finset NodeId,
        (∀ p ∈ Q, p ∈ members ∧ p ≠ id ∧
          VotedFor (Diary.turn d id ⟨n, ⟨env, i, eff⟩, n'⟩) p id n'.persistent.term) ∧
        n'.volatile.clusterSize < 2 * (1 + Q.card) := by
  obtain ⟨p, rfl, hquorum, hpers⟩ := ht.won hbefore hafter
  obtain ⟨hm, hpid, hg⟩ := hexp
  obtain ⟨hran, hgranted⟩ := hg rfl
  rw [hpers, ht.clusterSize]
  refine ⟨?_, hran, insert p n.volatile.tally, ?_, ?_⟩
  · have hrunning : n.volatile.status ≠ .follower := hcond.countsRunning rfl rfl hquorum
    revert hrunning hbefore
    cases n.volatile.status <;> simp
  · intro q hq
    rcases Finset.mem_insert.1 hq with rfl | hq
    · exact ⟨hm, hpid, granted_turn hgranted, _, mem_turn_self, rfl⟩
    · obtain ⟨hqm, hqid, hv⟩ := h.votedFor hran hq
      exact ⟨hqm, hqid, granted_turn hv.1, heard_turn hv.2⟩
  · omega

end

/-- The tallies, accounted for over the runs of a cluster. -/
def canvass (cfg : Config) : Upkeep cfg WinsOwn NoGhost where
  node d _ := Tallied cfg.members d
  packet d _ := Sent d
  fact _ _ _ := True
  packet_mono _ hp := hp.turn
  fact_mono _ hf := hf
  failed _ _ _ _ _ := trivial
  start now := ⟨.none, fun id => .start id (cfg.seeds id) (now id)⟩
  turn _ _ htally horigin hcond ht := by
    obtain ⟨htally', hsent⟩ := htally.turned (foreseen_of_origin horigin) hcond ht
    refine ⟨.none, le_rfl, htally', fun _ _ hne h => h.other hne, hsent, ?_, trivial⟩
    rintro p hr rfl rfl hp q hq
    exact hp.answer hr ht hq

/-- **A leader has the votes of its term.**  In every run whose calls meet
`WinsOwn`, a node whose status changes to leader was a candidate, ran in the term,
and holds granted votes of that term from peers that are, with itself, more than
half of the cluster. -/
theorem leader_by_majority {cfg : Config} {started : NodeId → ℕ} {h h' : List (Step Cluster Action)}
    {c : Cluster} (hrun : ClusterRun cfg started h c)
    (hcond : ∀ st ∈ h, Cluster.Meets WinsOwn st) {st : Step Cluster Action}
    (hst : (st :: h') <:+ h) {id : NodeId}
    (hbefore : (st.before.nodes id).volatile.status ≠ .leader)
    (hafter : (st.after.nodes id).volatile.status = .leader) :
    (st.before.nodes id).volatile.status = .candidate ∧
      Ran (turns id h') (st.after.nodes id).persistent.term ∧
        ∃ Q : Finset NodeId,
          (∀ p ∈ Q, p ∈ cfg.members ∧ p ≠ id ∧
            VotedFor (diary (st :: h')) p id (st.after.nodes id).persistent.term) ∧
          (st.after.nodes id).volatile.clusterSize < 2 * (1 + Q.card) := by
  cases Run.of_suffix hrun hst with
  | @cons _ c a c' hrun' hnext =>
      have hcond' : ∀ st ∈ h', Cluster.Meets WinsOwn st :=
        fun s hs => hcond s (hst.subset (List.mem_cons_of_mem _ hs))
      have hmeets := hcond _ (hst.subset List.mem_cons_self)
      obtain ⟨g, hinv, _⟩ := (canvass cfg).run hrun' hcond'
      cases hk : c.callOf a with
      | none => exact absurd (congrFun (next_quiet hnext hk) id ▸ hafter) hbefore
      | some k =>
          obtain ⟨n, eff, hn, hnodes⟩ := next_call hnext hk
          by_cases hid : id = k.id
          · subst hid
            have hexp := foreseen_of_origin (hinv.origin hrun' hnext hk)
            have htally : Tallied cfg.members (diary h') k.id (c.nodes k.id) := hinv.nodes k.id
            rw [hnodes, Function.update_self] at hafter ⊢
            rw [diary_call hk hn hnodes]
            exact htally.wins hexp (hmeets k hk) (Node.handle_turned hn) hbefore hafter
          · rw [hnodes, Function.update_of_ne hid] at hafter
            exact absurd hafter hbefore

/-- The turn that wins the first election. -/
theorem leader_by_majority_first_election : ∃ st h c, ClusterRun .trio (fun _ => 0) (st :: h) c ∧
    (st.after.nodes (localhost 2113)).volatile.status = .leader ∧
      ∃ Q : Finset NodeId,
        (∀ p ∈ Q, VotedFor (diary (st :: h)) p (localhost 2113) 1) ∧ 3 < 2 * (1 + Q.card) := by
  obtain ⟨h, c, hrun, hcond, st, hst, hbefore, hafter, hterm, hsize⟩ :=
    ClusterRun.exists_of_replay .trio firstElection
      (fun h _ => (∀ st ∈ h, Cluster.Meets WinsOwn st) ∧ ∃ st ∈ h.head?,
        (st.before.nodes (localhost 2113)).volatile.status ≠ .leader ∧
          (st.after.nodes (localhost 2113)).volatile.status = .leader ∧
            (st.after.nodes (localhost 2113)).persistent.term = 1 ∧
              (st.after.nodes (localhost 2113)).volatile.clusterSize = 3) (by decide +kernel)
  cases h with
  | nil => simp at hst
  | cons s h =>
      obtain rfl : s = st := Option.some.inj hst
      obtain ⟨_, _, Q, hQ, hcard⟩ :=
        leader_by_majority hrun hcond List.suffix_rfl hbefore hafter
      rw [hterm] at hQ
      exact ⟨s, h, c, hrun, hafter, Q, fun p hp => (hQ p hp).2.2, hsize ▸ hcard⟩

/-- Two elections of one node of five.  The first brings one vote and no majority,
the second one more vote; the tally has both. -/
def secondElection : List Action :=
  let A := localhost 2113
  let B := localhost 2114
  let D := localhost 2116
  [.tick ⟨0, 150⟩ A, .deliver ⟨1, 150⟩ (.voteReq A B ⟨A, 1, 0, 0⟩),
    .deliver ⟨2, 150⟩ (.voteResp B A 1 true), .tick ⟨200000000, 150⟩ A,
    .deliver ⟨200000001, 150⟩ (.voteReq A D ⟨A, 2, 0, 0⟩),
    .deliver ⟨200000002, 150⟩ (.voteResp D A 2 true)]

/-- A node of five leads the second term with one vote of a peer in that term. -/
theorem leader_without_majority : ∃ st h c, ClusterRun .quintet (fun _ => 0) (st :: h) c ∧
    (st.before.nodes (localhost 2113)).volatile.status ≠ .leader ∧
      (st.after.nodes (localhost 2113)).volatile.status = .leader ∧
        ¬ ∃ Q : Finset NodeId,
          (∀ p ∈ Q, p ∈ Config.quintet.members ∧ p ≠ localhost 2113 ∧
            VotedFor (diary (st :: h)) p (localhost 2113)
              (st.after.nodes (localhost 2113)).persistent.term) ∧
          (st.after.nodes (localhost 2113)).volatile.clusterSize < 2 * (1 + Q.card) := by
  obtain ⟨h, c, hrun, hheard, st, hst, hbefore, hafter, hterm, hsize⟩ :=
    ClusterRun.exists_of_replay .quintet secondElection
      (fun h _ => (∀ t ∈ turns (localhost 2113) h, ∀ p ∈ Config.quintet.members,
          t.act.input = .msg (.voteReceived p 2 true) → p = localhost 2116) ∧ ∃ st ∈ h.head?,
        (st.before.nodes (localhost 2113)).volatile.status ≠ .leader ∧
          (st.after.nodes (localhost 2113)).volatile.status = .leader ∧
            (st.after.nodes (localhost 2113)).persistent.term = 2 ∧
              (st.after.nodes (localhost 2113)).volatile.clusterSize = 5) (by decide +kernel)
  cases h with
  | nil => simp at hst
  | cons s h =>
      obtain rfl : s = st := Option.some.inj hst
      refine ⟨s, h, c, hrun, hbefore, hafter, ?_⟩
      rintro ⟨Q, hQ, hcard⟩
      have hsub : Q ⊆ {localhost 2116} := by
        intro p hp
        obtain ⟨hm, _, _, t, ht, hi⟩ := hQ p hp
        exact Finset.mem_singleton.2 (hheard t ht p hm (hterm ▸ hi))
      have hle := Finset.card_le_card hsub
      rw [Finset.card_singleton] at hle
      omega

end Safety
end RaftPlayground
