/-
# What the deployed system keeps to

What is proved of the cluster holds of the services and tasks that make it up, by
`deployment_refines`.

A thread ends when it takes `Shutdown` from its mailbox, when a handler panics, or when nobody can
send to it any more.  In a system of members that are each other's peers the last two do not happen:
the thread of a member serves until it is told to stop (`serves_until_told`).  And what a client is
told stays behind it: a call that returned a position was preceded by every other member storing a
batch that reaches this far (`returned_position_stored`).
-/

import RaftPlayground.Safety.Deployed
import RaftPlayground.Safety.NoPanic
import RaftPlayground.Safety.Stored

namespace RaftPlayground
namespace Safety

open Protocol Server Deployment

/-- The thread runs, and nobody told it to stop. -/
structure Lives (s : Service) : Prop where
  running : s.thread.phase ≠ .ended
  untold : .shutdown ∉ s.thread.mailbox

/-- The service answers: its thread runs, can handle whatever is in its mailbox, and let no call
down. -/
structure Serves (s : Service) : Prop extends Lives s where
  handles : ∀ m ∈ s.thread.mailbox, ∃ msg, m.msg? = some msg ∧
    ∀ env, (s.thread.node.handle env (.msg msg)).isSome = true
  available : ∀ x ∈ s.results, ∀ message, x.2 ≠ .error ⟨.unavailable, message⟩

section

variable {s s' : Service} {e : Event}

/-- A mail is a message, unless it is `Shutdown`. -/
theorem exists_msg {m : Mail} (hm : m ≠ .shutdown) : ∃ msg, m.msg? = some msg := by
  cases m with
  | request | voteReceived | appendEntriesResp => exact ⟨_, rfl⟩
  | shutdown => exact absurd rfl hm

/-- **A service goes on** that can handle its mail, has peers and is not told to stop. -/
theorem Lives.next (h : Lives s) (hnext : s.next e s') (hpost : e.act ≠ .post .shutdown)
    (hpeers : s.thread.node.volatile.seeds.isEmpty = false)
    (hhandles : ∀ m ∈ s.thread.mailbox, ∀ msg, m.msg? = some msg →
      ∀ env, (s.thread.node.handle env (.msg msg)).isSome = true) : Lives s' := by
  have hsent : ∀ {m : Mail} {thread : Thread}, m ≠ .shutdown →
      s.thread.next ⟨.send m, {}⟩ thread →
        thread.phase ≠ .ended ∧ .shutdown ∉ thread.mailbox := by
    intro m thread hm hsend
    cases Thread.next_moved hsend with
    | sent live =>
        refine ⟨live, fun hmem => ?_⟩
        rcases List.mem_append.1 hmem with hmem | hmem
        · exact h.untold hmem
        · exact hm (List.mem_singleton.1 hmem).symm
  cases Service.next_moved hnext with
  | settled | down | ignored => exact ⟨h.running, h.untold⟩
  | queued _ send =>
      have hlives := hsent Mail.noConfusion send
      exact ⟨hlives.1, hlives.2⟩
  | @posted p _ send =>
      have hp : p.mail ≠ .shutdown := by
        cases p with
        | voteReceived | appendEntriesResponseReceived => exact nofun
        | shutdown => exact absurd rfl hpost
      have hlives := hsent hp send
      exact ⟨hlives.1, hlives.2⟩
  | lapped own lap =>
      cases Thread.next_moved lap with
      | sent => exact absurd rfl (own _)
      | passed | checked => exact ⟨nofun, h.untold⟩
      | timedOut => exact ⟨nofun, List.not_mem_nil⟩
      | handled _ mail =>
          exact ⟨nofun, fun hmem => h.untold (mail ▸ List.mem_cons_of_mem _ hmem)⟩
      | @stopped env _ m _ _ mail _ _ out =>
          -- the mail at the front is a message, and it can be handled
          have hm : m ∈ s.thread.mailbox := mail ▸ List.mem_cons_self
          obtain ⟨msg, hmsg⟩ := exists_msg fun hm' => h.untold (hm' ▸ hm)
          have hsome := hhandles m hm msg hmsg env
          rw [out msg hmsg] at hsome
          exact nomatch hsome
      | disconnected _ _ alone => exact nomatch hpeers.symm.trans alone

/-- No service answers an append without asking the node. -/
theorem accept_ne_append {rpc : Rpc} (position : ℕ) :
    rpc.accept ≠ .inl (.ok (.append position)) := by
  match rpc with
  | .requestVote _ none _ _ | .appendEntries _ none _ _ _ _ => exact nofun
  | .requestVote _ (some _) _ _ | .appendEntries _ (some _) _ _ _ _ | .append _ _ | .read _
  | .ping | .status => exact nofun

/-- A call fails as unavailable once the thread has ended. -/
theorem Answers.ne_unavailable {h : List (Step Service Event)} {P : Prop} {c : ℕ} {rpc : Rpc}
    {result : RpcResult} (hanswers : Answers h P c rpc result) (hP : ¬ P) (message : String) :
    result ≠ .error ⟨.unavailable, message⟩ := by
  cases hanswers with
  | settled accept =>
      rintro rfl
      match rpc with
      | .requestVote _ none _ _ | .appendEntries _ none _ _ _ _ => exact nomatch accept
      | .requestVote _ (some _) _ _ | .appendEntries _ (some _) _ _ _ _ | .append _ _ | .read _
      | .ping | .status => exact nomatch accept
  | gone isOver => exact absurd isOver hP
  | notLeader | voted | replicated | appended | read | status => exact nofun

end

/-- A notice that a call failed is always handled. -/
theorem handle_notice_isSome (n : Node) (env : Env) (peer : NodeId) (batchEnd : Option ℕ) :
    (n.handle env (.msg (.appendEntriesResp peer batchEnd none))).isSome = true := by
  by_cases hlead : n.volatile.status = .leader
  · simp [Node.handle, Node.onAppendEntriesResp, hlead]
  · simp [Node.handle, Node.onAppendEntriesResp, hlead]

section

variable {cfg : Config} {started : NodeId → ℕ} {h : List (Step Deployment DeploymentEvent)}
  {s : Deployment}

/-- **No handler panics** on what is in the mailbox of a member. -/
theorem handle_isSome_of_mail (hrun : DeploymentRun cfg started h s) {id : NodeId}
    (hid : id ∈ cfg.members) {m : Mail} (hm : m ∈ (s.services id).thread.mailbox) {msg : Msg}
    (his : m.msg? = some msg) (env : Env) :
    ((s.services id).thread.node.handle env (.msg msg)).isSome = true := by
  obtain ⟨h', c, hrun', hR⟩ := deployment_refines hrun
  cases m with
  | shutdown => exact nomatch his
  | voteReceived =>
      obtain rfl := Option.some.inj his
      exact handle_isSome env trivial
  | request req resp =>
      obtain rfl := Option.some.inj his
      match req with
      | .requestVote .. | .appendEntries .. | .client (.append ..) | .client .status =>
          exact handle_isSome env trivial
      | .client (.read streamId) =>
          have hreadable := (panicFree_of_run hrun').readable id
          rw [Node.persistent_of_anonymous (hR.nodes id)] at hreadable
          exact handle_isSome env hreadable
  | appendEntriesResp peer batchEnd resp =>
      obtain rfl := Option.some.inj his
      cases resp with
      | none => exact handle_notice_isSome _ env peer batchEnd
      | some resp =>
          -- what it stands for is in flight in the cluster
          have hmail : Packet.entriesResp peer id batchEnd (some resp) ∈
              (s.services id).inMail id :=
            List.mem_flatMap.2 ⟨_, hm, List.mem_singleton_self _⟩
          have hnet := Multiset.mem_of_le ((inMail_le hid).trans hR.flight) hmail
          have hrouted := hrun'.routed _ (Multiset.mem_coe.1 hnet)
          have hplaced := placed_of_run hrun id
          exact handle_isSome env ((hplaced.mem_ids peer).2 ⟨hrouted.src_mem, hrouted.ne⟩)

/-- What a task posts is not `Shutdown`. -/
theorem Ask.post_ne_shutdown {ask : Ask} {peer : NodeId} {resp : Option RpcResp} {p : Post}
    (hpost : ask.post peer resp = some p) : p ≠ .shutdown := by
  unfold Ask.post at hpost
  split at hpost
  · exact Option.some.inj hpost ▸ nofun
  · exact nomatch hpost
  · exact Option.some.inj hpost ▸ nofun
  · exact Option.some.inj hpost ▸ nofun

/-- A member runs as long as it is not told to stop. -/
theorem lives_of_run (hrun : DeploymentRun cfg started h s) {id : NodeId} (hid : id ∈ cfg.members)
    (huntold : ∀ st ∈ h, st.act.act ≠ .shutdown id) : Lives (s.services id) := by
  refine Run.invariant (fun st => st.act.act ≠ .shutdown id) (fun _ s => Lives (s.services id))
    ⟨Phase.noConfusion, List.not_mem_nil⟩ ?_ hrun huntold
  intro h s e s' hrun hlives hnext huntold
  have hpeers : (s.services id).thread.node.volatile.seeds.isEmpty = false := by
    obtain ⟨peer, hpeer, hne⟩ := cfg.exists_peer id
    exact Seeds.isEmpty_eq_false.2
      (List.ne_nil_of_mem (((placed_of_run hrun id).mem_ids peer).2 ⟨hpeer, hne⟩))
  have hserve : ∀ {x : NodeId} {e' : Event} {service : Service}, (s.services x).next e' service →
      (x = id → e'.act ≠ .post .shutdown) → Lives (Function.update s.services x service id) := by
    intro x e' service hserve hpost
    by_cases hx : id = x
    · obtain rfl := hx
      rw [Function.update_self]
      exact hlives.next hserve (hpost rfl) hpeers fun _ hm _ his env =>
        handle_isSome_of_mail hrun hid hm his env
    · rwa [Function.update_of_ne hx]
  cases Deployment.next_moved hnext with
  | called _ _ call => exact hserve call fun _ => nofun
  | told _ post => exact hserve post fun hx => absurd (congrArg _ hx) huntold
  | arrived _ _ call => exact hserve call fun _ => nofun
  | silenced => exact hlives
  | posted _ _ some post =>
      exact hserve post fun _ heq => Ask.post_ne_shutdown some (ServiceAction.post.inj heq)
  | strayed _ call => exact hserve call fun _ => nofun
  | lapped _ lap => exact hserve lap fun _ => nofun

/-- **A member serves until it is told to stop.**  In every run of the system in which nobody posts
`Shutdown` to it, its thread runs, every message in its mailbox can be handled, at whatever instant,
and no call on it failed for want of the thread. -/
theorem serves_until_told (hrun : DeploymentRun cfg started h s) {id : NodeId}
    (hid : id ∈ cfg.members) (huntold : ∀ st ∈ h, st.act.act ≠ .shutdown id) :
    Serves (s.services id) := by
  have hlives := lives_of_run hrun hid huntold
  constructor
  case toLives => exact hlives
  case handles =>
    intro m hm
    obtain ⟨msg, hmsg⟩ := exists_msg fun heq => hlives.untold (heq ▸ hm)
    exact ⟨msg, hmsg, handle_isSome_of_mail hrun hid hm hmsg⟩
  case available =>
    intro x hx message
    obtain ⟨hs, hserve, _⟩ := hrun.exists_serviceRun id
    obtain ⟨_, _, hanswers⟩ := (accounted_of_run hserve).answered x hx
    exact hanswers.ne_unavailable hlives.running message

/-- A member with mail, after a call to append on another one has returned. -/
theorem serves_until_told_appendReturned : ∃ h s, DeploymentRun .trio (fun _ => 0) h s ∧
    (s.services (localhost 2114)).thread.mailbox ≠ [] ∧ Serves (s.services (localhost 2114)) := by
  obtain ⟨h, s, hrun, hmail, huntold⟩ := DeploymentRun.exists_of_replay .trio appendReturned
    (fun h s => (s.services (localhost 2114)).thread.mailbox ≠ [] ∧
      ∀ st ∈ h, st.act.act ≠ .shutdown (localhost 2114)) (by decide +kernel)
  exact ⟨h, s, hrun, hmail, serves_until_told hrun (by decide) huntold⟩

/-- The turns that store are the same by whatever names the channels go. -/
theorem storesBatch_anonymous {x : NodeId} {index : ℕ} {t : Step Node Turn} :
    StoresBatch x index (anonymous t) ↔ StoresBatch x index t := by
  have hinput : ∀ {term leader prev prevTerm commit es},
      t.act.input.anonymous = .msg (.appendEntries term leader prev prevTerm commit es) ↔
        t.act.input = .msg (.appendEntries term leader prev prevTerm commit es) := by
    intro term leader prev prevTerm commit es
    match t.act.input with
    | .tick | .msg (.appendStream ..) => exact ⟨nofun, nofun⟩
    | .msg (.requestVote ..) | .msg (.appendEntries ..) | .msg (.voteReceived ..)
    | .msg (.appendEntriesResp ..) | .msg (.readStream _) | .msg .status => exact Iff.rfl
  constructor
  · rintro ⟨term, prev, prevTerm, commit, es, last, hi, hstored⟩
    exact ⟨term, prev, prevTerm, commit, es, last, hinput.1 hi, hstored⟩
  · rintro ⟨term, prev, prevTerm, commit, es, last, hi, hstored⟩
    exact ⟨term, prev, prevTerm, commit, es, last, hinput.2 hi, hstored⟩

/-- **A position that was returned is stored everywhere.**  If a call to append returned the
position, every other member had accepted a batch of the member that was called, which ended at the
position or beyond, and stored it at the end of its log. -/
theorem returned_position_stored (hrun : DeploymentRun cfg started h s) {x y : NodeId}
    {number position : ℕ} (hresult : (number, .ok (.append position)) ∈ (s.services x).results)
    (hpos : 0 < position) (hy : y ∈ cfg.members) (hne : y ≠ x) :
    ∃ t ∈ Deployment.turns y h, ∃ index, position ≤ index ∧ StoresBatch x index t := by
  obtain ⟨h', c, hrun', hR⟩ := deployment_refines hrun
  -- the turn that returned the position
  obtain ⟨hs, hserve, hturns⟩ := hrun.exists_serviceRun x
  obtain ⟨rpc, _, hanswers⟩ := (accounted_of_run hserve).answered _ hresult
  obtain ⟨t, ht, hanswer⟩ : ∃ t ∈ Deployment.turns x h,
      (number, some position) ∈ t.act.effects.answers := by
    rw [← hturns]
    cases hanswers with
    | settled accept => exact absurd accept (accept_ne_append position)
    | @appended _ _ _ _ _ st _ _ _ step sends answer =>
        exact ⟨_, Service.mem_turns step sends.turn, answer⟩
  have hnotice : ¬ IsNotice t.act.input := by
    intro hnotice
    obtain ⟨_, _, _, hnext⟩ := (hturns ▸ hserve.turns_run).step_of_mem ht
    rw [(silent_of_notice (Node.handle_turned hnext) hnotice).2.2.2.1] at hanswer
    exact absurd hanswer List.not_mem_nil
  -- the cluster takes it too
  obtain ⟨t', ht', hsame⟩ := hR.exists_turn ht hnotice
  obtain ⟨resp, hanswer'⟩ : ∃ resp, (resp, some position) ∈ t'.act.effects.answers := by
    have hmem : (0, some position) ∈ (anonymous t').act.effects.answers := by
      rw [hsame]
      exact List.mem_map.2 ⟨_, hanswer, rfl⟩
    obtain ⟨⟨resp, answer⟩, hmem, heq⟩ := List.mem_map.1 hmem
    obtain ⟨_, rfl⟩ := Prod.mk.inj heq
    exact ⟨resp, hmem⟩
  -- and what the peer stored in the cluster, it stored in the system
  obtain ⟨t'', ht'', index, hle, hstores⟩ := stored_of_acked hrun' ht' hpos hanswer' hy hne
  obtain ⟨u, hu, husame⟩ := hR.exists_turn' ht''
  exact ⟨u, hu, index, hle, storesBatch_anonymous.1 (husame ▸ storesBatch_anonymous.2 hstores)⟩

/-- A call to append has returned the position 1, and the second member has stored it. -/
theorem returned_position_stored_appendReturned : ∃ h s, DeploymentRun .trio (fun _ => 0) h s ∧
    ∃ t ∈ Deployment.turns (localhost 2114) h, ∃ index, 1 ≤ index ∧
      StoresBatch (localhost 2113) index t := by
  obtain ⟨h, s, hrun, hreturned⟩ := DeploymentRun.exists_of_replay .trio appendReturned
    (fun _ s => (0, .ok (.append 1)) ∈ (s.services (localhost 2113)).results) (by decide +kernel)
  exact ⟨h, s, hrun, returned_position_stored hrun hreturned one_pos (by decide) (by decide)⟩

end

end Safety
end RaftPlayground
