/-
# When an append request is confirmed

A leader with peers puts a request on the list of those that wait, under the index of its
last entry, and answers it when a peer confirms a batch and the least index the peers have
is no longer below.  Nothing looks at the list before: a request whose index is on every
peer when it comes, as one without events may be, waits for the next batch.

A node without peers answers at once.  It leaves `commit_index` alone, which nothing else
moves there either, so the index it confirms is one it never reports as committed.
-/

import RaftPlayground.Safety.Progress

namespace RaftPlayground
namespace Safety

open Protocol Server

/-- Nothing that waits at a leader is on every peer. -/
def NoneLeftWaiting (n : Node) : Prop :=
  n.volatile.status = .leader →
    ∀ x ∈ n.volatile.inflights, n.volatile.seeds.computeLowestReplicatedIndex < x.1

instance (n : Node) : Decidable (NoneLeftWaiting n) :=
  inferInstanceAs (Decidable (_ → ∀ x ∈ _, _))

/-- The last index a leader gives to an append request is beyond what all peers have. -/
def GivesBeyond (n : Node) : Input → Prop
  | .msg (.appendStream _ events _) =>
    n.volatile.status = .leader →
      n.volatile.seeds.computeLowestReplicatedIndex <
        lastGiven n.persistent.entries.lastIndex events.length
  | _ => True

instance (n : Node) : ∀ i, Decidable (GivesBeyond n i)
  | .msg (.appendStream ..) => inferInstanceAs (Decidable (_ → _))
  | .tick | .msg (.requestVote ..) | .msg (.voteReceived ..) | .msg (.appendEntries ..)
  | .msg (.appendEntriesResp ..) | .msg (.readStream ..) | .msg .status => isTrue trivial

/-- What the turn confirms is committed after it. -/
def Committed (t : Step Node Turn) : Prop :=
  ∀ resp index, (resp, some index) ∈ t.act.effects.answers →
    index ≤ t.after.volatile.commitIndex

/-- A node without peers gives no index to an append request: the log is empty, and there
are no events. -/
def GivesNone (n : Node) : Input → Prop
  | .msg (.appendStream _ events _) =>
    n.volatile.seeds.isEmpty = true →
      lastGiven n.persistent.entries.lastIndex events.length = 0
  | _ => True

instance (n : Node) : ∀ i, Decidable (GivesNone n i)
  | .msg (.appendStream ..) => inferInstanceAs (Decidable (_ → _))
  | .tick | .msg (.requestVote ..) | .msg (.voteReceived ..) | .msg (.appendEntries ..)
  | .msg (.appendEntriesResp ..) | .msg (.readStream ..) | .msg .status => isTrue trivial

/-- The input is a tick, a request of a client, or an answer; no other node asks for anything. -/
def Unasked : Input → Prop
  | .msg (.requestVote ..) | .msg (.appendEntries ..) => False
  | _ => True

instance : ∀ i, Decidable (Unasked i)
  | .msg (.requestVote ..) | .msg (.appendEntries ..) => isFalse id
  | .tick | .msg (.voteReceived ..) | .msg (.appendEntriesResp ..) | .msg (.appendStream ..)
  | .msg (.readStream ..) | .msg .status => isTrue trivial

section

variable {ts : List (Step Node Turn)} {env : Env} {n n' : Node} {i : Input} {eff : Effects}

theorem givesBeyond_of_quiet (h : i.Quiet) : GivesBeyond n i := by
  cases i with
  | tick => trivial
  | msg m =>
      cases m with
      | appendStream => exact h.elim
      | _ => trivial

/-- **One turn** leaves nothing waiting that is on every peer if and only if it puts no such
request on the list. -/
theorem noneLeftWaiting_iff (hpeers : n.volatile.seeds.isEmpty = false)
    (ht : n.Turned env i n' eff) (h : NoneLeftWaiting n) :
    NoneLeftWaiting n' ↔ GivesBeyond n i := by
  cases ht with
  | idle quiet => exact iff_of_true h (givesBeyond_of_quiet quiet)
  | elected => exact iff_of_true (fun _ x hx => absurd hx List.not_mem_nil) trivial
  | @advanced _ _ _ seeds =>
      refine iff_of_true (fun _ x hx => ?_) trivial
      have hwaits := of_decide_eq_true (List.mem_filter.1 hx).2
      exact not_le.1 hwaits
  | backedOff lead found =>
      refine iff_of_true (fun _ x hx => ?_) trivial
      have hlow := Seeds.computeLowestReplicatedIndex_nodeMut found fun _ => rfl
      exact hlow.trans_lt (h lead x hx)
  | appendRefused lead => exact iff_of_true h fun hlead => absurd hlead lead
  | appendStored _ _ alone => simp [alone] at hpeers
  | @appendPending streamId events resp es index lead store =>
      obtain rfl := eq_lastGiven store
      constructor
      · intro hnone _
        exact hnone lead (_, resp) (List.mem_append_right _ (List.mem_singleton_self _))
      · intro hgives _ x hx
        rcases List.mem_append.1 hx with hx | hx
        · exact h lead x hx
        · rw [List.mem_singleton.1 hx]
          exact hgives lead
  | candidacy | voteGranted | outrun | entriesUnknown | entriesEmpty | entriesStored =>
      exact iff_of_true (fun hlead => by simp at hlead) trivial
  | _ => exact iff_of_true h trivial

/-- A node without peers leads, and has committed nothing. -/
def LeadsAlone (n : Node) : Prop :=
  n.volatile.seeds.isEmpty = true → n.volatile.status = .leader ∧ n.volatile.commitIndex = 0

theorem LeadsAlone.turned (h : LeadsAlone n) (ht : n.Turned env i n' eff) (hi : Unasked i) :
    LeadsAlone n' := by
  intro halone
  have hids : n'.volatile.seeds.isEmpty = n.volatile.seeds.isEmpty := by
    rw [Bool.eq_iff_iff, ← not_iff_not, Bool.not_eq_true, Bool.not_eq_true,
      Seeds.isEmpty_eq_false, Seeds.isEmpty_eq_false, ht.place.2.2]
  rw [hids] at halone
  obtain ⟨hlead, hcommit⟩ := h halone
  have hnopeer : n.volatile.seeds.ids = [] := by
    rw [Seeds.ids, List.isEmpty_iff.1 halone]
    rfl
  cases ht with
  | idle | heartbeat | counted | appendRefused | appendStored | appendPending =>
      exact ⟨hlead, hcommit⟩
  | candidacy due => exact absurd hlead due.2.1
  | outrun lead => exact absurd hlead lead
  | elected lead => exact absurd hlead lead
  | advanced _ found | backedOff _ found =>
      -- an answer of a peer there is none of
      have hmem := (Option.ite_none_right_eq_some.1 found).1
      rw [hnopeer] at hmem
      exact absurd hmem List.not_mem_nil
  | voteStale | voteGranted | voteRefused | voteRepeated => exact hi.elim
  | entriesStale | entriesUnknown | entriesEmpty | entriesStored => exact hi.elim

theorem givesNone_of_quiet (h : i.Quiet) : GivesNone n i := by
  cases i with
  | tick => trivial
  | msg m =>
      cases m with
      | appendStream => exact h.elim
      | _ => trivial

/-- **One turn** has committed what it confirms, if and only if the node has peers or what it
confirms is nothing. -/
theorem committed_iff (ht : n.Turned env i n' eff) (h : LeadsAlone n) :
    Committed ⟨n, ⟨env, i, eff⟩, n'⟩ ↔ GivesNone n i := by
  cases ht with
  | idle quiet silent =>
      refine iff_of_true (fun resp index hans => ?_) (givesNone_of_quiet quiet)
      exact absurd (silent.2.2.1 ▸ hans) List.not_mem_nil
  | elected =>
      refine iff_of_true (fun resp index hans => ?_) trivial
      obtain ⟨_, _, heq⟩ := List.mem_map.1 hans
      exact nomatch (Prod.mk.inj heq).2
  | advanced =>
      refine iff_of_true (fun resp index hans => ?_) trivial
      obtain ⟨x, hx, heq⟩ := List.mem_map.1 hans
      obtain rfl := Option.some.inj (Prod.mk.inj heq).2
      exact of_decide_eq_true (List.mem_filter.1 hx).2
  | appendRefused lead =>
      refine iff_of_true (fun resp index hans => ?_) fun halone => absurd (h halone).1 lead
      exact nomatch (Prod.mk.inj (List.mem_singleton.1 hans)).2
  | @appendStored streamId events resp es index lead store alone =>
      obtain rfl := eq_lastGiven store
      have hzero := (h alone).2
      constructor
      · intro hcommitted _
        have hle : lastGiven n.persistent.entries.lastIndex events.length ≤
            n.volatile.commitIndex := hcommitted resp _ (List.mem_singleton_self _)
        omega
      · intro hgives resp' index' hans
        obtain ⟨_, hindex⟩ := Prod.mk.inj (List.mem_singleton.1 hans)
        rw [Option.some.inj hindex, hgives alone]
        exact Nat.zero_le _
  | appendPending _ _ peers =>
      refine iff_of_true (fun resp index hans => absurd hans List.not_mem_nil) fun halone => ?_
      exact absurd (halone.symm.trans peers) (by decide)
  | _ => exact iff_of_true (fun resp index hans => absurd hans List.not_mem_nil) trivial

end

section

variable {id : NodeId} {seeds : List Seed} {now : ℕ} {ts : List (Step Node Turn)} {n : Node}

theorem noneLeftWaiting_of_run (hrun : NodeRun id seeds now ts n) (hseeds : seeds ≠ [])
    (hgives : ∀ t ∈ ts, GivesBeyond t.before t.act.input) : NoneLeftWaiting n := by
  refine Run.invariant (fun t : Step Node Turn => GivesBeyond t.before t.act.input)
    (fun _ => NoneLeftWaiting) (fun _ x hx => absurd hx List.not_mem_nil) ?_ hrun hgives
  intro ts n t n' hrun h hnext hgive
  exact (noneLeftWaiting_iff (isEmpty_of_run hrun hseeds) (Node.handle_turned hnext) h).2 hgive

/-- **When nothing is left waiting that is on every peer.**  Over every run of a node with
peers, in every state in which it leads, if and only if every append request to it as the
leader gets a last index beyond what all peers have. -/
theorem none_left_waiting_iff (hrun : NodeRun id seeds now ts n) (hseeds : seeds ≠ []) :
    (∀ t ∈ ts, NoneLeftWaiting t.after) ↔ ∀ t ∈ ts, GivesBeyond t.before t.act.input := by
  rw [← guarded_const, ← guarded_const]
  refine hrun.guarded_iff fun ts n t n' hrun hnext hgives => ?_
  rw [guarded_const] at hgives
  exact noneLeftWaiting_iff (isEmpty_of_run hrun hseeds) (Node.handle_turned hnext)
    (noneLeftWaiting_of_run hrun hseeds hgives)

/-- The request of two events waits for the peers. -/
theorem none_left_waiting_iff_replication :
    ∃ ts n, NodeRun (localhost 2113) (Config.trio.seeds (localhost 2113)) 0 ts n ∧
      (∃ t ∈ ts, t.after.volatile.inflights = [(2, 0)]) ∧ ∀ t ∈ ts, NoneLeftWaiting t.after := by
  obtain ⟨h, c, hrun, hgives, hwaits⟩ := ClusterRun.exists_of_replay .trio replication
    (fun h _ => (∀ t ∈ Cluster.turns (localhost 2113) h, GivesBeyond t.before t.act.input) ∧
      ∃ t ∈ Cluster.turns (localhost 2113) h, t.after.volatile.inflights = [(2, 0)])
    (by decide +kernel)
  have hturns := hrun.turns_run (localhost 2113)
  exact ⟨_, _, hturns, hwaits, (none_left_waiting_iff hturns (by decide)).2 hgives⟩

/-- A request without events reaches a leader whose two entries are on every peer. -/
def emptyRequest : List Action :=
  replication ++ [.client ⟨9, 150⟩ (localhost 2113) (.append "s" [])]

/-- It waits, though every peer has the index it waits for. -/
theorem empty_request_left_waiting : ∃ h c, ClusterRun .trio (fun _ => 0) h c ∧
    let n := c.nodes (localhost 2113)
    n.volatile.status = .leader ∧ n.volatile.inflights = [(2, 1)] ∧
      n.volatile.seeds.computeLowestReplicatedIndex = 2 ∧ ¬ NoneLeftWaiting n :=
  ClusterRun.exists_of_replay .trio emptyRequest _ (by decide +kernel)

theorem leadsAlone_of_run (hrun : NodeRun id seeds now ts n)
    (hunasked : ∀ t ∈ ts, Unasked t.act.input) : LeadsAlone n := by
  refine Run.invariant (fun t : Step Node Turn => Unasked t.act.input) (fun _ => LeadsAlone) ?_
    (fun _ _ _ _ _ h hnext hi => h.turned (Node.handle_turned hnext) hi) hrun hunasked
  intro halone
  have hnone : seeds = [] := by
    by_contra hne
    exact absurd (halone.symm.trans (isEmpty_of_run .nil hne)) (by decide)
  exact ⟨if_pos (List.isEmpty_iff.2 hnone), rfl⟩

/-- **When what is confirmed is committed.**  Over every run of a node that no other node asks
for anything, at the end of every turn, if and only if it has peers or no append request to it
gets an index. -/
theorem confirmed_committed_iff (hrun : NodeRun id seeds now ts n)
    (hunasked : ∀ t ∈ ts, Unasked t.act.input) :
    (∀ t ∈ ts, Committed t) ↔ ∀ t ∈ ts, GivesNone t.before t.act.input := by
  have hstep : ∀ t ∈ ts, (Committed t ↔ GivesNone t.before t.act.input) := by
    intro t ht
    obtain ⟨h', hrun', hsuf, hnext⟩ := hrun.step_of_mem ht
    refine committed_iff (Node.handle_turned hnext) (leadsAlone_of_run hrun' fun s hs => ?_)
    exact hunasked s (hsuf.subset (List.mem_cons_of_mem _ hs))
  exact forall₂_congr hstep

end

/-- The request of two events is answered when both peers have confirmed it. -/
theorem confirmed_committed_iff_replication :
    ∃ ts n, NodeRun (localhost 2113) (Config.trio.seeds (localhost 2113)) 0 ts n ∧
      (∃ t ∈ ts, t.act.effects.answers = [(0, some 2)]) ∧ ∀ t ∈ ts, Committed t := by
  obtain ⟨h, c, hrun, hunasked, hgives, hans⟩ := ClusterRun.exists_of_replay .trio replication
    (fun h _ => (∀ t ∈ Cluster.turns (localhost 2113) h, Unasked t.act.input) ∧
      (∀ t ∈ Cluster.turns (localhost 2113) h, GivesNone t.before t.act.input) ∧
      ∃ t ∈ Cluster.turns (localhost 2113) h, t.act.effects.answers = [(0, some 2)])
    (by decide +kernel)
  have hturns := hrun.turns_run (localhost 2113)
  exact ⟨_, _, hturns, hans, (confirmed_committed_iff hturns hunasked).2 hgives⟩

/-- A node without peers confirms its first entry, and reports that nothing is committed. -/
theorem confirmed_alone_not_committed : ∃ t n, NodeRun (localhost 2113) [] 0 [t] n ∧
    t.act.input = .msg (.appendStream "s" [[1]] 0) ∧ t.act.effects.answers = [(0, some 1)] ∧
      n.onStatus.logIndex = 0 ∧ ¬ Committed t := by
  let n := Node.start (localhost 2113) [] 0
  let i : Input := .msg (.appendStream "s" [[1]] 0)
  have hhandled : (n.handle ⟨0, 150⟩ i).isSome = true := by decide
  obtain ⟨⟨n', eff⟩, hnext⟩ := Option.isSome_iff_exists.1 hhandled
  refine ⟨⟨n, ⟨⟨0, 150⟩, i, eff⟩, n'⟩, n', .cons .nil hnext, rfl, ?_⟩
  obtain ⟨rfl, rfl⟩ := Prod.mk.inj (Option.some.inj hnext)
  refine ⟨rfl, rfl, fun hcommitted => ?_⟩
  exact absurd (hcommitted 0 1 (List.mem_singleton_self _)) (by decide)

end Safety
end RaftPlayground
