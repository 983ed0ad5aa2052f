/-
# Acknowledged appends are kept

Leader completeness for acknowledgements, for the runs that keep what is committed,
and a run of three nodes in which the next leader holds an acknowledged entry twice.

A leader that answers a request with an index counts it on every peer, so every
member holds the log of its term up to that index.  The request was accepted in the
same term (`accepted_in_term`), and its last entry was at that index of that log
(`stored_last`).  Channels are numbered through the whole cluster, so the request
that is answered is the one that was sent on the channel (`channels_distinct`).
-/

import RaftPlayground.Safety.Commit
import RaftPlayground.Safety.Request

namespace RaftPlayground
namespace Safety

open Protocol Server

theorem requests_mono {cfg : Config} {c c' : Cluster} {a : Action} (hnext : c.next cfg a c') :
    c.requests ≤ c'.requests := by
  cases Cluster.next_moved hnext with
  | ticked _ _ _ _ _ reqs | delivered _ _ _ _ _ reqs | dropped _ _ _ reqs => exact reqs.ge
  | requested _ _ _ _ _ reqs => exact reqs ▸ Nat.le_succ _

/-- A call that receives an append request receives it on the next channel. -/
theorem received_next {cfg : Config} {c c' : Cluster} {a : Action} {k : Call}
    (hnext : c.next cfg a c') (hk : c.callOf a = some k) (n n' : Node) (eff : Effects) :
    receivedAt ⟨n, ⟨k.env, k.input, eff⟩, n'⟩ = [] ∨
      receivedAt ⟨n, ⟨k.env, k.input, eff⟩, n'⟩ = [c.requests] ∧ c'.requests = c.requests + 1 := by
  cases Cluster.next_moved hnext with
  | ticked =>
      obtain rfl := Option.some.inj hk
      exact Or.inl rfl
  | @requested _ _ req _ _ _ _ _ _ _ _ reqs =>
      obtain rfl := Option.some.inj hk
      cases req with
      | append => exact Or.inr ⟨rfl, reqs⟩
      | read | status => exact Or.inl rfl
  | @delivered _ p =>
      obtain rfl := Option.some.inj hk
      cases p <;> exact Or.inl rfl
  | dropped quiet => exact nomatch quiet.symm.trans hk

/-- **Every append request has a channel of its own**, in every run of a cluster. -/
theorem channels_distinct {cfg : Config} {started : NodeId → ℕ} {h : List (Step Cluster Action)}
    {c : Cluster} (hrun : ClusterRun cfg started h c) (id : NodeId) :
    (received (Cluster.turns id h)).Nodup ∧
      ∀ resp ∈ received (Cluster.turns id h), resp < c.requests := by
  refine Run.invariant (fun _ => True)
    (fun h c => (received (Cluster.turns id h)).Nodup ∧
      ∀ resp ∈ received (Cluster.turns id h), resp < c.requests)
    ⟨List.nodup_nil, fun _ hr => absurd hr List.not_mem_nil⟩ ?_ hrun fun _ _ => trivial
  intro h c a c' _ ⟨hnd, hlt⟩ hnext _
  have hlt' : ∀ resp ∈ received (Cluster.turns id h), resp < c'.requests :=
    fun resp hr => (hlt resp hr).trans_le (requests_mono hnext)
  rcases Cluster.turnOf_cases hnext id with ⟨hnone, _⟩ | ⟨k, eff, hk, _, _, hsome⟩
  · rw [Cluster.turns, List.filterMap_cons_none hnone]
    exact ⟨hnd, hlt'⟩
  · rw [Cluster.turns, List.filterMap_cons_some hsome, received, List.flatMap_cons]
    rcases received_next hnext hk (c.nodes id) (c'.nodes id) eff with hnil | ⟨hnew, hreqs⟩
    · rw [hnil, List.nil_append]
      exact ⟨hnd, hlt'⟩
    · rw [hnew]
      exact ⟨List.nodup_cons.2 ⟨fun hr => (hlt _ hr).false, hnd⟩,
        List.forall_mem_cons.2 ⟨hreqs ▸ Nat.lt_succ_self _, hlt'⟩⟩

/-- One turn receives a request on a channel. -/
theorem eq_of_receivedAt {ts : List (Step Node Turn)} (hnd : (received ts).Nodup)
    {t t' : Step Node Turn} (ht : t ∈ ts) (ht' : t' ∈ ts) {resp : Sender}
    (hr : resp ∈ receivedAt t) (hr' : resp ∈ receivedAt t') : t = t' := by
  induction ts with
  | nil => simp at ht
  | cons s ts ih =>
      rw [received, List.flatMap_cons, List.nodup_append] at hnd
      obtain ⟨_, hnd', hdisj⟩ := hnd
      rcases List.mem_cons.1 ht with rfl | hmem <;> rcases List.mem_cons.1 ht' with rfl | hmem'
      · rfl
      · exact absurd rfl (hdisj _ hr _ (List.mem_flatMap.2 ⟨t', hmem', hr'⟩))
      · exact absurd rfl (hdisj _ hr' _ (List.mem_flatMap.2 ⟨t, hmem, hr⟩))
      · exact ih hnd' hmem hmem'

/-- What a leader has accepted since its election, it accepted in its term. -/
theorem accepted_in_term {id : NodeId} {seeds : List Seed} {now : ℕ} {ts : List (Step Node Turn)}
    {n : Node} (hrun : NodeRun id seeds now ts n)
    (hdown : ∀ t ∈ ts, StepsDown t.before t.act.input) {index : ℕ} {resp : Sender}
    (hacc : Accepted ts index resp) (hlead : n.volatile.status = .leader) :
    ∃ t ∈ ts, Accepts t index resp ∧ t.after.volatile.status = .leader ∧
      t.after.persistent.term = n.persistent.term := by
  refine Run.invariant (fun t => StepsDown t.before t.act.input)
    (fun ts n => Accepted ts index resp → n.volatile.status = .leader →
      ∃ t ∈ ts, Accepts t index resp ∧ t.after.volatile.status = .leader ∧
        t.after.persistent.term = n.persistent.term)
    False.elim ?_ hrun hdown hacc hlead
  intro ts n turn n' _ ih hnext hdown hacc hlead'
  rcases hacc with hnow | ⟨hstays, hbefore⟩
  · exact ⟨_, List.mem_cons_self, hnow, hlead', rfl⟩
  · have hlead : n.volatile.status = .leader := by
      by_contra hfollow
      exact hstays ⟨hfollow, hlead'⟩
    obtain ⟨t, ht, haccepts, hleads, hterm⟩ := ih hbefore hlead
    exact ⟨t, List.mem_cons_of_mem _ ht, haccepts, hleads,
      hterm.trans (term_of_leaders (Node.handle_turned hnext) hdown hlead hlead').symm⟩

/-- The last entry once a leader has stored a request stands at the index of the request. -/
theorem stored_last {env : Env} {n n' : Node} {eff : Effects} {streamId : String}
    {events : List Bytes} {resp : Sender} (hnum : n.persistent.entries.Numbered)
    (ht : n.Turned env (.msg (.appendStream streamId events resp)) n' eff)
    (hlead : n.volatile.status = .leader)
    (hfits : IndexFits n (.msg (.appendStream streamId events resp))) {e : Entry}
    (hlast : n'.persistent.entries.inner.getLast? = some e) :
    e.index = n.persistent.entries.lastIndex + events.length ∧
      ∃ k, e.index = k + 1 ∧ n'.persistent.entries.inner[k]? = some e := by
  have hget : n'.persistent.entries.inner[n'.persistent.entries.inner.length - 1]? = some e := by
    rw [← List.getLast?_eq_getElem?, hlast]
  have hpos := (List.getElem?_eq_some_iff.1 hget).1
  have hstored : ∃ new, n'.persistent.entries.inner = n.persistent.entries.inner ++ new ∧
      new.length = events.length ∧ n'.persistent.entries.Numbered := by
    cases ht with
    | idle quiet => exact quiet.elim
    | appendRefused follow => exact absurd hlead follow
    | appendStored _ store | appendPending _ store =>
        obtain ⟨new, hinner, hlen, _, hnum'⟩ := hnum.appendEventsLoop (hfits hlead)
        rw [store] at hinner hnum'
        exact ⟨new, hinner, hlen, hnum'⟩
  obtain ⟨new, hinner, hlen, hnum'⟩ := hstored
  have hindex := hnum'.consecutive.index_getElem? hget
  have hsum := congrArg List.length hinner
  rw [List.length_append, hlen, ← hnum.lastIndex] at hsum
  exact ⟨by omega, _, by omega, hget⟩

/-- **Acknowledged appends are never lost.**  In every run whose calls meet
`KeepsCommitted`, if a leader answers a request with an index, then from there on every
member, a leader of whatever term among them, has the last entry of the request as its
only entry of that index. -/
theorem acknowledged_kept {cfg : Config} {started : NodeId → ℕ} {h : List (Step Cluster Action)}
    {c : Cluster} (hrun : ClusterRun cfg started h c)
    (hcond : ∀ st ∈ h, Cluster.Meets KeepsCommitted st) {A : NodeId} {request ack : Step Node Turn}
    (hrequest : request ∈ Cluster.turns A h) (hack : ack ∈ Cluster.turns A h) {streamId : String}
    {events : List Bytes} {resp : Sender}
    (hinput : request.act.input = .msg (.appendStream streamId events resp)) {e : Entry}
    (hlast : request.after.persistent.entries.inner.getLast? = some e) {i : ℕ}
    (hanswer : (resp, some i) ∈ ack.act.effects.answers) :
    e.index = i ∧ ∀ id ∈ cfg.members, atIndex (logOf c id) i = [e] := by
  obtain ⟨g, hinv, hfact⟩ := (holdings cfg).run hrun hcond
  have hmeets := Cluster.meets_turns hcond A
  have hturns := hrun.turns_run A
  -- the answer: the request waited, accepted in the term of the leader
  obtain ⟨ts, hrun₁, hsuf, hnext₁⟩ := hturns.step_of_mem hack
  have hmem₁ : ∀ t ∈ ts, t ∈ Cluster.turns A h :=
    fun t ht => hsuf.subset (List.mem_cons_of_mem _ ht)
  obtain ⟨hlead₁, _, hsame, hwait, _⟩ := (Node.handle_turned hnext₁).confirmed
    (Placed.isEmpty_eq_false (NodeRun.placed hrun₁) (cfg.exists_peer A)) hanswer
  have hreq := requested_of_run hrun₁ fun t ht =>
    (hmeets t (hmem₁ t ht)).matchesLogs.keepsNumbers.indexFits
  obtain ⟨t, ht, haccepts, hleads, hterm⟩ := accepted_in_term hrun₁
    (fun t ht => (hmeets t (hmem₁ t ht)).matchesLogs.electsOnce.stepsDown)
    (hreq.waiting _ hwait) hlead₁
  -- the request: its last entry is in the log of that term
  obtain ⟨streamId', events', hinput', hlead, hindex⟩ := haccepts
  have hon : resp ∈ receivedAt t := by
    rw [receivedAt, hinput']
    exact List.mem_singleton_self resp
  have hon' : resp ∈ receivedAt request := by
    rw [receivedAt, hinput]
    exact List.mem_singleton_self resp
  obtain rfl := eq_of_receivedAt (channels_distinct hrun A).1 (hmem₁ t ht) hrequest hon hon'
  obtain ⟨_, _, _, hnext⟩ := hturns.step_of_mem hrequest
  have hturned := Node.handle_turned hnext
  have hfits := (hmeets t hrequest).matchesLogs.keepsNumbers.indexFits
  have hknown : Witnessed g t := hfact A t hrequest
  rw [hinput'] at hturned hfits
  obtain ⟨heindex, k, hk, hget⟩ := stored_last hknown.numbered hturned hlead hfits hlast
  obtain rfl : e.index = i := heindex.trans hindex.symm
  refine ⟨rfl, fun id hid => ?_⟩
  have hconfirmed : Witnessed g ack := hfact A ack hack
  rw [hk]
  refine Upkeep.atIndex_of_held hinv (fun p hp => ?_)
    (getElem?_of_isPrefix (hknown.leads hleads) hget) hid
  rw [← hk, hterm, ← hsame]
  exact hconfirmed.confirms hanswer p hp

/-- The request of two events is answered once both followers have it. -/
theorem acknowledged_kept_replication : ∃ h c, ClusterRun .trio (fun _ => 0) h c ∧
    ∀ id ∈ Config.trio.members, atIndex (logOf c id) 2 = [⟨2, 1, putEvent "s" [2]⟩] := by
  obtain ⟨h, c, hrun, hcond, request, hrequest, ack, hack, hinput, hlast, hanswer⟩ :=
    ClusterRun.exists_of_replay .trio replication
      (fun h _ => (∀ st ∈ h, Cluster.Meets KeepsCommitted st) ∧
        ∃ request ∈ Cluster.turns (localhost 2113) h, ∃ ack ∈ Cluster.turns (localhost 2113) h,
          request.act.input = .msg (.appendStream "s" [[1], [2]] 0) ∧
          request.after.persistent.entries.inner.getLast? = some ⟨2, 1, putEvent "s" [2]⟩ ∧
            (0, some 2) ∈ ack.act.effects.answers) (by decide +kernel)
  exact ⟨h, c, hrun, (acknowledged_kept hrun hcond hrequest hack hinput hlast hanswer).2⟩

/-- The follower that has the batch twice is elected in the second term. -/
def resentElected : List Action :=
  let B := localhost 2114
  let C := localhost 2115
  resentConfirmed ++
    [.tick ⟨17, 150⟩ B, .deliver ⟨18, 150⟩ (.voteReq B C ⟨B, 2, 3, 1⟩),
      .deliver ⟨19, 150⟩ (.voteResp C B 2 true)]

/-- The leader of the second term has two entries of an index acknowledged in the first. -/
theorem acknowledged_twice : ∃ h c request ack resp e, ClusterRun .trio (fun _ => 0) h c ∧
    request ∈ Cluster.turns (localhost 2113) h ∧ ack ∈ Cluster.turns (localhost 2113) h ∧
      request.act.input = .msg (.appendStream "s" [[3]] resp) ∧
      request.after.persistent.entries.inner.getLast? = some e ∧
      (resp, some e.index) ∈ ack.act.effects.answers ∧
        (c.nodes (localhost 2114)).volatile.status = .leader ∧
          e.term ≤ (c.nodes (localhost 2114)).persistent.term ∧
            atIndex (logOf c (localhost 2114)) e.index ≠ [e] := by
  obtain ⟨h, c, hrun, ⟨request, hrequest, ack, hack, hinput, hlast, hanswer⟩, hlead, hterm, hlog⟩ :=
    ClusterRun.exists_of_replay .trio resentElected
      (fun h c => (∃ request ∈ Cluster.turns (localhost 2113) h,
        ∃ ack ∈ Cluster.turns (localhost 2113) h,
          request.act.input = .msg (.appendStream "s" [[3]] 1) ∧
          request.after.persistent.entries.inner.getLast? = some ⟨3, 1, putEvent "s" [3]⟩ ∧
            (1, some 3) ∈ ack.act.effects.answers) ∧
        (c.nodes (localhost 2114)).volatile.status = .leader ∧
          1 ≤ (c.nodes (localhost 2114)).persistent.term ∧
            atIndex (logOf c (localhost 2114)) 3 ≠ [⟨3, 1, putEvent "s" [3]⟩]) (by decide +kernel)
  exact ⟨h, c, request, ack, 1, _, hrun, hrequest, hack, hinput, hlast, hanswer, hlead, hterm, hlog⟩

end Safety
end RaftPlayground
