/-
# A leader that counts backwards

`on_append_entries_resp` stores the end of the batch an answer is for, whatever the peer
confirmed before.  Every tick sends each peer a request of its own, so a leader waits for
several answers of one peer at a time, and nothing keeps them in order.  One that comes
after the answer of a longer batch takes `match_index` back to the shorter one, and with
it `commit_index`, which is the least of them.

A leader counts forward exactly as long as each peer's answers come in the order of the
batches they confirm.
-/

import RaftPlayground.Safety.Progress

namespace RaftPlayground
namespace Safety

open Protocol Server

/-- The node leads before the turn and after it. -/
def Reigns (t : Step Node Turn) : Prop :=
  t.before.volatile.status = .leader ∧ t.after.volatile.status = .leader

instance (t : Step Node Turn) : Decidable (Reigns t) := inferInstanceAs (Decidable (_ ∧ _))

/-- The turn takes back nothing the node counted. -/
structure Advances (t : Step Node Turn) : Prop where
  matchIndex : ∀ x ∈ t.before.volatile.seeds.inner, ∀ y ∈ t.after.volatile.seeds.inner,
    x.id = y.id → x.matchIndex ≤ y.matchIndex
  commitIndex : t.before.volatile.commitIndex ≤ t.after.volatile.commitIndex

/-- A leader that learns of a stored batch knows of no longer one on that peer. -/
def InOrder (ts : List (Step Node Turn)) (t : Step Node Turn) : Prop :=
  t.before.volatile.status = .leader → ∀ id ∈ t.before.volatile.seeds.ids,
    ∀ batchEnd ∈ confirmedBy id t.act.input, lastConfirmed id ts ≤ batchEnd

instance (ts : List (Step Node Turn)) (t : Step Node Turn) : Decidable (InOrder ts t) :=
  inferInstanceAs (Decidable (_ → ∀ id ∈ _, ∀ batchEnd ∈ confirmedBy id _, _))

section

variable {id : NodeId} {seeds : List Seed} {now : ℕ} {ts : List (Step Node Turn)} {n n' : Node}

theorem confirmedBy_eq_some {i : Input} {batchEnd : ℕ} :
    confirmedBy id i = some batchEnd ↔
      ∃ term, i = .msg (.appendEntriesResp id (some batchEnd) (some ⟨term, true⟩)) := by
  unfold confirmedBy
  split
  · next p b term =>
      simp only [Option.ite_none_right_eq_some, Option.some.injEq, Input.msg.injEq,
        Msg.appendEntriesResp.injEq, AppendEntriesResp.mk.injEq, and_true]
      exact ⟨fun h => ⟨term, h.1, h.2, rfl⟩, fun ⟨_, hid, hb, _⟩ => ⟨hid, hb⟩⟩
  · next hnone =>
      exact ⟨nofun, fun ⟨term, h⟩ => absurd h (hnone id batchEnd term)⟩

/-- Only an answer a leader counts moves what it counts. -/
theorem Advances.of_unconfirmed {env : Env} {i : Input} {eff : Effects}
    (ht : n.Turned env i n' eff) (hreigns : Reigns ⟨n, ⟨env, i, eff⟩, n'⟩)
    (hnone : ∀ id, confirmedBy id i = none) : Advances ⟨n, ⟨env, i, eff⟩, n'⟩ := by
  have hsame : n'.volatile.seeds = n.volatile.seeds →
      n'.volatile.commitIndex = n.volatile.commitIndex →
        Advances ⟨n, ⟨env, i, eff⟩, n'⟩ := by
    intro hseeds hcommit
    constructor
    case matchIndex =>
      intro x hx y hy hid
      have hy' : y ∈ n.volatile.seeds.inner := hseeds ▸ hy
      rw [Seeds.eq_of_id_eq hx hy' hid]
    case commitIndex => exact hcommit.ge
  cases ht with
  | elected lead => exact absurd hreigns.1 lead
  | advanced => simp [confirmedBy] at hnone
  | backedOff _ found =>
      constructor
      case matchIndex =>
        intro x hx y hy hid
        obtain ⟨z, hz, hzy, hle⟩ := Seeds.exists_le_of_nodeMut found (fun _ _ _ => le_rfl) y hy
        rwa [Seeds.eq_of_id_eq hx hz (hid.trans hzy.symm)]
      case commitIndex => exact le_rfl
  | candidacy | voteGranted | outrun | entriesUnknown | entriesEmpty | entriesStored =>
      exact absurd hreigns.2 (by simp)
  | _ => exact hsame rfl rfl

/-- A leader that counts a batch goes forward exactly if the peer stored no longer one. -/
theorem advances_iff_of_confirmed {t : Turn} {p : NodeId} {batchEnd term : ℕ}
    (hrun : NodeRun id seeds now ts n) (hnext : n.next t n')
    (hlead : n.volatile.status = .leader)
    (hinput : t.input = .msg (.appendEntriesResp p (some batchEnd) (some ⟨term, true⟩))) :
    Advances ⟨n, t, n'⟩ ↔ lastConfirmed p ts ≤ batchEnd := by
  have hhandle := hnext
  rw [Node.next, hinput] at hhandle
  obtain ⟨hfound, _, hcommit⟩ := Node.handle_confirms hlead hhandle
  -- the answer comes from a peer, so the node has peers
  have hmem : p ∈ n.volatile.seeds.ids := (Option.ite_none_right_eq_some.1 hfound).1
  obtain ⟨x, hx, hxp⟩ := List.mem_map.1 hmem
  have hseeds : seeds ≠ [] := by
    rintro rfl
    rw [ids_of_run hrun] at hmem
    exact absurd hmem List.not_mem_nil
  have htracks := tracks_of_run hrun hseeds hlead
  have hold : x.matchIndex = lastConfirmed p ts := hxp ▸ htracks.matchIndex x hx
  obtain ⟨s', hs', hcounted⟩ := Seeds.nodeMut_of_mem hx
    (fun seed => { seed with matchIndex := batchEnd, nextIndex := addU64 batchEnd 1 })
    fun _ => rfl
  rw [hxp, hfound] at hs'
  obtain rfl := Option.some.inj hs'
  constructor
  · intro hadv
    rw [← hold]
    exact hadv.matchIndex x hx _ hcounted rfl
  · intro hle
    have hkeeps := Seeds.exists_le_of_nodeMut hfound fun z hz hzp => by
      rw [Seeds.eq_of_id_eq hz hx (hzp.trans hxp.symm)]
      exact hold.trans_le hle
    constructor
    case matchIndex =>
      intro z hz y hy hid
      obtain ⟨w, hw, hwy, hwle⟩ := hkeeps y hy
      rwa [Seeds.eq_of_id_eq hz hw (hid.trans hwy.symm)]
    case commitIndex =>
      show n.volatile.commitIndex ≤ n'.volatile.commitIndex
      rw [htracks.commitIndex, hcommit]
      refine Seeds.computeLowestReplicatedIndex_mono fun y hy => ?_
      obtain ⟨z, hz, _, hzle⟩ := hkeeps y hy
      exact ⟨z, hz, hzle⟩

/-- **One turn** of a leader goes forward exactly if what it answers to comes in order. -/
theorem advances_iff {t : Turn} (hrun : NodeRun id seeds now ts n) (hnext : n.next t n') :
    (Reigns ⟨n, t, n'⟩ → Advances ⟨n, t, n'⟩) ↔ InOrder ts ⟨n, t, n'⟩ := by
  by_cases hconf : ∃ p batchEnd, confirmedBy p t.input = some batchEnd
  · obtain ⟨p, batchEnd, hconf⟩ := hconf
    obtain ⟨term, hinput⟩ := confirmedBy_eq_some.1 hconf
    have hhandle := hnext
    rw [Node.next, hinput] at hhandle
    constructor
    · intro hadv hlead q b hq hb
      obtain ⟨_, hinput'⟩ := confirmedBy_eq_some.1 hb
      have hafter := (Node.handle_confirms hlead hhandle).2.1
      exact (advances_iff_of_confirmed hrun hnext hlead hinput').1 (hadv ⟨hlead, hafter⟩)
    · intro horder hreigns
      have hfound := (Node.handle_confirms hreigns.1 hhandle).1
      have hmem : p ∈ n.volatile.seeds.ids := (Option.ite_none_right_eq_some.1 hfound).1
      exact (advances_iff_of_confirmed hrun hnext hreigns.1 hinput).2
        (horder hreigns.1 p hmem batchEnd hconf)
  · simp only [not_exists, ← Option.eq_none_iff_forall_ne_some] at hconf
    constructor
    · intro _ _ p _ b hb
      rw [hconf p] at hb
      exact absurd hb (Option.not_mem_none b)
    · intro _ hreigns
      exact .of_unconfirmed (Node.handle_turned hnext) hreigns hconf

/-- **When a leader counts forward.**  Over every run, no turn of a leader takes back a
`match_index` or the `commit_index` if and only if the answers of every peer reach it in
the order of the batches they confirm. -/
theorem counts_forward_iff (hrun : NodeRun id seeds now ts n) :
    (∀ t ∈ ts, Reigns t → Advances t) ↔ Guarded InOrder ts := by
  rw [← guarded_const]
  exact hrun.guarded_iff fun _ _ _ _ hrun hnext _ => advances_iff hrun hnext

end

/-- The reign in which the request of two events is answered. -/
theorem counts_forward_iff_replication :
    ∃ ts n, NodeRun (localhost 2113) (Config.trio.seeds (localhost 2113)) 0 ts n ∧
      (∃ t ∈ ts, t.act.effects.answers = [(0, some 2)]) ∧ ∀ t ∈ ts, Reigns t → Advances t := by
  obtain ⟨h, c, hrun, horder, hans⟩ := ClusterRun.exists_of_replay .trio replication
    (fun h _ => Guarded InOrder (Cluster.turns (localhost 2113) h) ∧
      ∃ t ∈ Cluster.turns (localhost 2113) h, t.act.effects.answers = [(0, some 2)])
    (by decide +kernel)
  have hturns := hrun.turns_run (localhost 2113)
  exact ⟨_, _, hturns, hans, (counts_forward_iff hturns).2 horder⟩

/-- The batch of a third and a fourth event, behind the two of the first request. -/
def longerBatch : EntriesReq :=
  { secondBatch with
    entries := secondBatch.entries ++ [⟨4, 1, putEvent "s" [4]⟩] }

/-- Behind two events that every node has, the leader sends a third on one tick and, with
a fourth, on the next.  A follower stores both batches; its two answers change places. -/
def overtaken : List Action :=
  let A := localhost 2113
  let B := localhost 2114
  let C := localhost 2115
  replication ++
    [.client ⟨9, 150⟩ A (.append "s" [[3]]), .tick ⟨10, 150⟩ A,
      .client ⟨11, 150⟩ A (.append "s" [[4]]), .tick ⟨12, 150⟩ A,
      .deliver ⟨13, 150⟩ (.entriesReq A B secondBatch),
      .deliver ⟨14, 150⟩ (.entriesReq A B longerBatch),
      .deliver ⟨15, 150⟩ (.entriesReq A C longerBatch),
      .deliver ⟨16, 150⟩ (.entriesResp C A (some 4) (some ⟨1, true⟩)),
      .deliver ⟨17, 150⟩ (.entriesResp B A (some 4) (some ⟨1, true⟩)),
      .deliver ⟨18, 150⟩ (.entriesResp B A (some 3) (some ⟨1, true⟩))]

/-- The answer for the shorter batch comes last, and the leader takes back an index it
has committed. -/
theorem overtaken_answer_counts_back : ∃ h c, ClusterRun .trio (fun _ => 0) h c ∧
    ∃ t ∈ Cluster.turns (localhost 2113) h, Reigns t ∧
      t.act.input = .msg (.appendEntriesResp (localhost 2114) (some 3) (some ⟨1, true⟩)) ∧
      (t.before.volatile.seeds.inner.map Seed.matchIndex = [4, 4] ∧
        t.before.volatile.commitIndex = 4) ∧
      (t.after.volatile.seeds.inner.map Seed.matchIndex = [3, 4] ∧
        t.after.volatile.commitIndex = 3) ∧ ¬ Advances t := by
  obtain ⟨h, c, hrun, t, ht, hreigns, hinput, hbefore, hafter⟩ :=
    ClusterRun.exists_of_replay .trio overtaken
      (fun h _ => ∃ t ∈ Cluster.turns (localhost 2113) h, Reigns t ∧
        t.act.input = .msg (.appendEntriesResp (localhost 2114) (some 3) (some ⟨1, true⟩)) ∧
        (t.before.volatile.seeds.inner.map Seed.matchIndex = [4, 4] ∧
          t.before.volatile.commitIndex = 4) ∧
        (t.after.volatile.seeds.inner.map Seed.matchIndex = [3, 4] ∧
          t.after.volatile.commitIndex = 3))
      (by decide +kernel)
  refine ⟨h, c, hrun, t, ht, hreigns, hinput, hbefore, hafter, fun hadv => ?_⟩
  have hle := hadv.commitIndex
  rw [hbefore.2, hafter.2] at hle
  exact absurd hle (by decide)

end Safety
end RaftPlayground
