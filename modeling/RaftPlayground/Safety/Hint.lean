/-
# The leader a node reports

A node stores whom it takes for the leader, and reports it on request.  A replication
request names its sender, which leads the term the node adopts with it; a node that
wins names itself, and a candidate nobody.  The two other handlers that raise the term
leave a name that says nothing about it: `on_request_vote` keeps the one it finds, and
`on_vote_received` stores the voter.

`NamesLeader` excludes just the turns of these two in which the name is not, by chance,
that of a node that led the new term before.  A leader that refuses a vote request is no
such turn, as it leads the new term itself.
-/

import RaftPlayground.Server.Upkeep

namespace RaftPlayground
namespace Safety

open Protocol Server Cluster

/-- One of the turns ended with the node leading the term. -/
def Led (ts : List (Step Node Turn)) (term : ℕ) : Prop :=
  ∃ t ∈ ts, t.after.volatile.status = .leader ∧ t.after.persistent.term = term

instance (ts : List (Step Node Turn)) (term : ℕ) : Decidable (Led ts term) :=
  inferInstanceAs (Decidable (∃ t ∈ ts, _ ∧ _))

theorem Led.turn {d : Diary} {x : NodeId} {term : ℕ} (h : Led (d x) term) (id : NodeId)
    (t : Step Node Turn) : Led (d.turn id t x) term :=
  exists_mem_turn h

/-- A turn that raises the term and does not clear the hint leaves the name of a node
that led the new term: a vote request at a node that does not refuse it as the leader,
and the answer to one at a node that does not lead. -/
def NamesLeader (d : Diary) (n : Node) : Input → Prop
  | .msg (.requestVote term _ lli llt) =>
    n.persistent.term < term → ¬(n.volatile.status = .leader ∧ ¬ n.LogUpTo lli llt) →
      ∀ x ∈ n.volatile.leader, Led (d x) term
  | .msg (.voteReceived id term _) =>
    n.persistent.term < term → n.volatile.status ≠ .leader → Led (d id) term
  | _ => True

instance (d : Diary) (n : Node) : ∀ i, Decidable (NamesLeader d n i)
  | .msg (.requestVote ..) => inferInstanceAs (Decidable (_ → _ → ∀ x ∈ n.volatile.leader, _))
  | .msg (.voteReceived ..) => inferInstanceAs (Decidable (_ → _ → _))
  | .tick | .msg (.appendEntries ..) | .msg (.appendEntriesResp ..)
  | .msg (.appendStream ..) | .msg (.readStream ..) | .msg .status => isTrue trivial

/-- A replication request comes from a node that led its term. -/
def SentByLeader (d : Diary) : Packet → Prop
  | .entriesReq src _ req => Led (d src) req.term
  | .voteReq .. | .voteResp .. | .entriesResp .. => True

/-- The same, as an input. -/
def FromLeader (d : Diary) : Input → Prop
  | .msg (.appendEntries term id _ _ _ _) => Led (d id) term
  | _ => True

theorem fromLeader_of_origin {members : List NodeId} {d : Diary} {id : NodeId} {i : Input}
    (h : Origin members (SentByLeader d) id i) : FromLeader d i := by
  cases h with
  | tick => trivial
  | client req => cases req <;> trivial
  | packet p routed _ hp =>
      cases p with
      | entriesReq src _ req =>
          have hsigned : req.leaderId = src := routed.signed
          show Led (d req.leaderId) req.term
          rw [hsigned]
          exact hp
      | voteReq | voteResp | entriesResp => trivial

/-- What a turn sends comes from a leader, kept up over all runs of a cluster. -/
def leading (cfg : Config) : Upkeep cfg (fun _ _ _ => True) NoGhost where
  node _ _ _ _ := True
  packet d _ := SentByLeader d
  fact _ _ _ := True
  packet_mono := by
    intro d _ _ id t p _ hp
    cases p with
    | entriesReq src => exact Led.turn hp id t
    | voteReq | voteResp | entriesResp => trivial
  fact_mono _ hf := hf
  failed _ _ _ _ _ := trivial
  start _ := ⟨.none, fun _ => trivial⟩
  turn := by
    intro d _ id env n i n' eff _ _ _ _ _ ht
    refine ⟨.none, le_rfl, trivial, fun _ _ _ h => h, ?_, ?_, trivial⟩
    · intro p hp
      rcases Effects.mem_packets.1 hp with ⟨x, hx, rfl⟩ | ⟨x, hx, rfl⟩
      · trivial
      · obtain ⟨hlead, s, hsend⟩ := ht.sends hx
        obtain ⟨seed, _, rfl⟩ := Seeds.mem_sendAppendEntries hsend
        exact ⟨_, mem_turn_self, hlead, rfl⟩
    · intro p _ _ _ _ q hq
      cases q with
      | entriesReq => exact (Packet.not_isRequest_of_mem_answer hq trivial).elim
      | voteReq | voteResp | entriesResp => trivial

/-- The hint of a node is the name of a node that led its term, its own while it leads. -/
structure Hints (d : Diary) (id : NodeId) (n : Node) : Prop where
  led : ∀ x, n.volatile.leader = some x → Led (d x) n.persistent.term
  own : n.volatile.status = .leader → n.volatile.leader = some id

section

variable {d : Diary} {id : NodeId} {env : Env} {n n' : Node} {i : Input} {eff : Effects}

/-- A turn that leaves the hint and the term, and does not begin to lead. -/
theorem Hints.same (h : Hints d id n) (y : NodeId) (t : Step Node Turn)
    (hleader : n'.volatile.leader = n.volatile.leader)
    (hterm : n'.persistent.term = n.persistent.term)
    (hstatus : n'.volatile.status = .leader → n.volatile.status = .leader) :
    Hints (d.turn y t) id n' := by
  constructor
  case led =>
    intro x hx
    rw [hterm]
    exact (h.led x (hleader ▸ hx)).turn y t
  case own => exact fun hlead => hleader.trans (h.own (hstatus hlead))

/-- A turn after which the node does not lead, and its hint names who led the term. -/
theorem Hints.named (y : NodeId) (t : Step Node Turn) (hstatus : n'.volatile.status ≠ .leader)
    (hled : ∀ x, n'.volatile.leader = some x → Led (d x) n'.persistent.term) :
    Hints (d.turn y t) id n' := by
  constructor
  case led => exact fun x hx => (hled x hx).turn y t
  case own => exact fun hlead => absurd hlead hstatus

/-- **One turn** that names a leader keeps the hint. -/
theorem Hints.turned (h : Hints d id n) (hid : n.volatile.id = id) (hin : FromLeader d i)
    (hnames : NamesLeader d n i) (ht : n.Turned env i n' eff) :
    Hints (d.turn id ⟨n, ⟨env, i, eff⟩, n'⟩) id n' := by
  cases ht with
  | candidacy =>
      refine .named _ _ (by simp) fun x hx => ?_
      simp [Node.switchToCandidate] at hx
  | voteGranted le free log =>
      refine .named _ _ (by simp) fun x hx => ?_
      rcases le.lt_or_eq with hlt | rfl
      · exact hnames hlt (fun hrefuses => hrefuses.2 log) x hx
      · exact h.led x hx
  | @voteRefused term cand lli llt le free log =>
      rcases le.lt_or_eq with hlt | rfl
      · constructor
        case led =>
          intro x hx
          by_cases hlead : n.volatile.status = .leader
          · -- the node itself leads the new term from here
            obtain rfl := Option.some.inj ((h.own hlead).symm.trans hx)
            exact ⟨_, mem_turn_self, hlead, rfl⟩
          · exact (hnames hlt (fun hrefuses => hlead hrefuses.1) x hx).turn id _
        case own => exact h.own
      · exact h.same _ _ rfl rfl fun hlead => hlead
  | @outrun voter term granted lead lt =>
      refine .named _ _ (by simp) fun x hx => ?_
      obtain rfl := Option.some.inj hx
      exact hnames lt lead
  | elected =>
      constructor
      case led =>
        intro x hx
        obtain rfl : n.volatile.id = x := Option.some.inj hx
        rw [hid]
        exact ⟨_, mem_turn_self, rfl, rfl⟩
      case own => exact fun _ => congrArg some hid
  | entriesUnknown | entriesEmpty | entriesStored =>
      refine .named _ _ (by simp) fun x hx => ?_
      obtain rfl := Option.some.inj hx
      exact hin
  | _ => exact h.same _ _ rfl rfl fun hlead => hlead

end

/-- Every call of a step names a leader, after the history of the step. -/
def NamesLeaderAt (h : List (Step Cluster Action)) (st : Step Cluster Action) : Prop :=
  ∀ k, st.before.callOf st.act = some k →
    NamesLeader (diary h) (st.before.nodes k.id) k.input

theorem hints_of_run {cfg : Config} {started : NodeId → ℕ} {h : List (Step Cluster Action)}
    {c : Cluster} (hrun : ClusterRun cfg started h c)
    (hnames : Guarded NamesLeaderAt h) (id : NodeId) :
    Hints (diary h) id (c.nodes id) := by
  refine Run.history_invariant NamesLeaderAt (fun h c => Hints (diary h) id (c.nodes id)) ?_ ?_
    hrun hnames
  · -- a node starts as a follower that knows no leader
    refine ⟨fun _ hx => (Option.some_ne_none _ hx.symm).elim, fun hlead => ?_⟩
    rw [Cluster.init, cfg.start_status] at hlead
    cases hlead
  · intro h c a c' hrun hinv hnext hguard
    obtain ⟨_, hholds, _⟩ := (leading cfg).run hrun fun _ _ _ _ => trivial
    cases hk : c.callOf a with
    | none =>
        rw [diary_quiet hk, next_quiet hnext hk]
        exact hinv
    | some k =>
        obtain ⟨n, eff, hhandled, hnodes⟩ := next_call hnext hk
        rw [diary_call hk hhandled hnodes, hnodes]
        by_cases hid : id = k.id
        · subst hid
          rw [Function.update_self]
          exact hinv.turned (ClusterRun.placed hrun k.id).id_eq
            (fromLeader_of_origin (hholds.origin hrun hnext hk)) (hguard k hk)
            (Node.handle_turned hhandled)
        · rw [Function.update_of_ne hid]
          exact hinv.same _ _ rfl rfl fun hlead => hlead

/-- **The leader hint is sound** in every run whose turns name a leader: a node that is
taken for the leader led the current term of who takes it for one. -/
theorem leader_hint_sound {cfg : Config} {started : NodeId → ℕ}
    {h : List (Step Cluster Action)} {c : Cluster} (hrun : ClusterRun cfg started h c)
    (hnames : Guarded NamesLeaderAt h) (id x : NodeId)
    (hhint : (c.nodes id).volatile.leader = some x) :
    ∃ t ∈ turns x h, t.after.volatile.status = .leader ∧
      t.after.persistent.term = (c.nodes id).persistent.term :=
  (hints_of_run hrun hnames id).led x hhint

instance (h : List (Step Cluster Action)) (st : Step Cluster Action) :
    Decidable (NamesLeaderAt h st) :=
  inferInstanceAs (Decidable (∀ k, k ∈ st.before.callOf st.act → _))

/-- After the first election the leader's heartbeat reaches a follower. -/
def firstHeartbeat : List Action :=
  let A := localhost 2113
  let B := localhost 2114
  firstElection ++ [.deliver ⟨3, 150⟩ (.entriesReq A B ⟨A, 1, 0, 1, 0, []⟩)]

/-- A follower knows its leader from the first heartbeat. -/
theorem leader_hint_sound_heartbeat : ∃ h c, ClusterRun .trio (fun _ => 0) h c ∧
    ∃ t ∈ turns (localhost 2113) h, t.after.volatile.status = .leader ∧
      t.after.persistent.term = (c.nodes (localhost 2114)).persistent.term := by
  obtain ⟨h, c, hrun, hnames, hhint⟩ := ClusterRun.exists_of_replay .trio firstHeartbeat
    (fun h c => Guarded NamesLeaderAt h ∧
      (c.nodes (localhost 2114)).volatile.leader = some (localhost 2113)) (by decide +kernel)
  exact ⟨h, c, hrun, leader_hint_sound hrun hnames (localhost 2114) (localhost 2113) hhint⟩

/-- A vote request of the next term leaves a follower with the leader of the last one. -/
theorem leader_hint_stale : ∃ h c, ClusterRun .trio (fun _ => 0) h c ∧
    (c.nodes (localhost 2114)).volatile.leader = some (localhost 2113) ∧
      ¬ ∃ t ∈ turns (localhost 2113) h, t.after.volatile.status = .leader ∧
        t.after.persistent.term = (c.nodes (localhost 2114)).persistent.term :=
  ClusterRun.exists_of_replay .trio
    (firstHeartbeat ++ [.tick ⟨4, 150⟩ (localhost 2115),
      .deliver ⟨5, 150⟩ (.voteReq (localhost 2115) (localhost 2114) ⟨localhost 2115, 2, 0, 0⟩)])
    (fun h c => (c.nodes (localhost 2114)).volatile.leader = some (localhost 2113) ∧
      ¬ ∃ t ∈ turns (localhost 2113) h, t.after.volatile.status = .leader ∧
        t.after.persistent.term = (c.nodes (localhost 2114)).persistent.term)
    (by decide +kernel)

end Safety
end RaftPlayground
