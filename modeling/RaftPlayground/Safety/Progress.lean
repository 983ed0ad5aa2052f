/-
# What a leader counts

A leader keeps, for every peer, the end of the last batch the peer stored, and
commits the least of these.  Both are mutable fields that a follower leaves stale or
overwrites; they mean something while the node leads.  `lastConfirmed` reads them
off the past: the last successful answer to a batch since the node switched to
leader.  `Tracks` says the fields agree with it, and every turn keeps that, because
`reset` clears them at every election and nothing but an answer moves them after it.
-/

import RaftPlayground.Safety.Request

namespace RaftPlayground
namespace Safety

open Protocol Server

/-- The end of the batch the peer confirms with a successful answer.  Heartbeats have
no end. -/
def confirmedBy (id : NodeId) : Input → Option ℕ
  | .msg (.appendEntriesResp p (some batchEnd) (some ⟨_, true⟩)) =>
    if p = id then some batchEnd else none
  | _ => none

instance (t : Step Node Turn) : Decidable (Switches t) := inferInstanceAs (Decidable (_ ∧ _))

/-- The end of the last batch the peer confirmed since the node switched to leader, `0`
if there is none. -/
def lastConfirmed (id : NodeId) : List (Step Node Turn) → ℕ
  | [] => 0
  | t :: ts => if Switches t then 0 else (confirmedBy id t.act.input).getD (lastConfirmed id ts)

/-- The index an answer confirms is a `u64`. -/
def BatchFits : Input → Prop
  | .msg (.appendEntriesResp _ (some batchEnd) _) => batchEnd < 2 ^ 64
  | _ => True

instance : ∀ i, Decidable (BatchFits i)
  | .msg (.appendEntriesResp _ (some _) _) => inferInstanceAs (Decidable (_ < _))
  | .msg (.appendEntriesResp _ none _) | .tick | .msg (.requestVote ..)
  | .msg (.appendEntries ..) | .msg (.voteReceived ..) | .msg (.appendStream ..)
  | .msg (.readStream ..) | .msg .status => isTrue trivial

theorem lastConfirmed_lt {ts : List (Step Node Turn)} (hfits : ∀ t ∈ ts, BatchFits t.act.input)
    (id : NodeId) : lastConfirmed id ts < 2 ^ 64 := by
  induction ts with
  | nil => exact Nat.two_pow_pos 64
  | cons t ts ih =>
      rw [List.forall_mem_cons] at hfits
      have hbelow := ih hfits.2
      have hfit := hfits.1
      unfold lastConfirmed
      split_ifs
      · exact Nat.two_pow_pos 64
      · unfold confirmedBy
        split
        · split_ifs
          · simp_all [BatchFits]
          · exact hbelow
        · exact hbelow

/-- The fields a leader commits by agree with its past. -/
structure Tracks (ts : List (Step Node Turn)) (n : Node) : Prop where
  matchIndex : ∀ seed ∈ n.volatile.seeds.inner, seed.matchIndex = lastConfirmed seed.id ts
  commitIndex : n.volatile.commitIndex = n.volatile.seeds.computeLowestReplicatedIndex

section

variable {ts : List (Step Node Turn)} {env : Env} {n n' : Node} {i : Input} {eff : Effects}

/-- An election counts nothing and commits nothing. -/
theorem Tracks.elected (hpeers : n.volatile.seeds.isEmpty = false)
    (ht : n.Turned env i n' eff) (hbefore : n.volatile.status ≠ .leader)
    (hafter : n'.volatile.status = .leader) : Tracks (⟨n, ⟨env, i, eff⟩, n'⟩ :: ts) n' := by
  have hnone : ∀ id, lastConfirmed id (⟨n, ⟨env, i, eff⟩, n'⟩ :: ts) = 0 :=
    fun id => if_pos ⟨hbefore, hafter⟩
  have hzero : ∀ seed ∈ n'.volatile.seeds.inner, seed.matchIndex = 0 := by
    intro seed hseed
    rcases ht.matchIndex hafter hseed with hzero | ⟨hlead, _⟩
    · exact hzero
    · exact absurd hlead hbefore
  constructor
  case matchIndex =>
    intro seed hseed
    rw [hnone, hzero seed hseed]
  case commitIndex =>
    have hne : n'.volatile.seeds.isEmpty = false := by
      rw [Seeds.isEmpty_eq_false, ht.place.2.2, ← Seeds.isEmpty_eq_false]
      exact hpeers
    obtain ⟨seed, hseed, hlow⟩ := Seeds.exists_matchIndex_eq hne fun seed hseed => by
      rw [hzero seed hseed]
      exact Nat.two_pow_pos 64
    rw [← hlow, hzero seed hseed]
    cases ht with
    | elected => rfl
    | candidacy | voteGranted | outrun | entriesUnknown | entriesEmpty | entriesStored =>
        simp at hafter
    | heartbeat _ lead | advanced lead | backedOff lead | appendStored lead
    | appendPending lead => exact absurd lead hbefore
    | _ => exact absurd hafter hbefore

/-- A leader counts a confirmed batch where its past counts it, and nothing else. -/
theorem Tracks.advanced {t : Turn} {id : NodeId} {batchEnd term : ℕ} (h : Tracks ts n)
    (hlead : n.volatile.status = .leader)
    (hinput : t.input = .msg (.appendEntriesResp id (some batchEnd) (some ⟨term, true⟩)))
    (hnext : n.next t n') : Tracks (⟨n, t, n'⟩ :: ts) n' := by
  rw [Node.next, hinput] at hnext
  obtain ⟨hfound, _, hcommit⟩ := Node.handle_confirms hlead hnext
  refine ⟨fun seed hseed => ?_, hcommit⟩
  have hstays : ¬ Switches ⟨n, t, n'⟩ := fun hs => hs.1 hlead
  rw [lastConfirmed, if_neg hstays]
  obtain ⟨x, hx, rfl⟩ := Seeds.mem_nodeMut hfound hseed
  have hold := h.matchIndex x hx
  by_cases hid : x.id = id
  · rw [if_pos hid]
    show batchEnd = (confirmedBy x.id t.input).getD _
    rw [hinput, confirmedBy, if_pos hid.symm]
    rfl
  · rw [if_neg hid, hold]
    show _ = (confirmedBy x.id t.input).getD _
    rw [hinput, confirmedBy, if_neg fun h => hid h.symm]
    rfl

/-- Nothing but a confirmed batch moves what a leader counts. -/
theorem Tracks.kept (h : Tracks ts n) (ht : n.Turned env i n' eff)
    (hlead : n.volatile.status = .leader) (hafter : n'.volatile.status = .leader)
    (hinput : ∀ id, confirmedBy id i = none) : Tracks (⟨n, ⟨env, i, eff⟩, n'⟩ :: ts) n' := by
  have hlast : ∀ id, lastConfirmed id (⟨n, ⟨env, i, eff⟩, n'⟩ :: ts) = lastConfirmed id ts := by
    intro id
    have hstays : ¬ Switches ⟨n, ⟨env, i, eff⟩, n'⟩ := fun hs => hs.1 hlead
    rw [lastConfirmed, if_neg hstays, hinput]
    rfl
  have hsame : n'.volatile.seeds = n.volatile.seeds →
      n'.volatile.commitIndex = n.volatile.commitIndex →
        Tracks (⟨n, ⟨env, i, eff⟩, n'⟩ :: ts) n' := by
    intro hseeds hcommit
    constructor
    case matchIndex =>
      rw [hseeds]
      intro seed hseed
      rw [hlast, h.matchIndex seed hseed]
    case commitIndex => rw [hseeds, hcommit, h.commitIndex]
  cases ht with
  | elected lead => exact absurd hlead lead
  | advanced => simp [confirmedBy] at hinput
  | @backedOff _ _ _ seeds _ found =>
      constructor
      case matchIndex =>
        intro seed hseed
        obtain ⟨x, hx, rfl⟩ := Seeds.mem_nodeMut found hseed
        have hold := h.matchIndex x hx
        rw [hlast]
        split_ifs
        · exact hold
        · exact hold
      case commitIndex =>
        show n.volatile.commitIndex = seeds.computeLowestReplicatedIndex
        rw [Seeds.computeLowestReplicatedIndex_nodeMut found fun _ => rfl, h.commitIndex]
  | entriesStored => simp at hafter
  | _ => exact hsame rfl rfl

/-- **One turn** keeps a leader's fields in step with its past. -/
theorem Tracks.next {t : Turn} (hpeers : n.volatile.seeds.isEmpty = false)
    (h : n.volatile.status = .leader → Tracks ts n) (hnext : n.next t n')
    (hafter : n'.volatile.status = .leader) : Tracks (⟨n, t, n'⟩ :: ts) n' := by
  have ht := Node.handle_turned hnext
  by_cases hlead : n.volatile.status = .leader
  · by_cases hinput : ∃ id batchEnd term,
        t.input = .msg (.appendEntriesResp id (some batchEnd) (some ⟨term, true⟩))
    · obtain ⟨id, batchEnd, term, hinput⟩ := hinput
      exact (h hlead).advanced hlead hinput hnext
    · refine (h hlead).kept ht hlead hafter fun id => ?_
      unfold confirmedBy
      split
      · next p batchEnd term heq => exact absurd ⟨p, batchEnd, term, heq⟩ hinput
      · rfl
  · exact Tracks.elected hpeers ht hlead hafter

end

section

variable {id : NodeId} {seeds : List Seed} {now : ℕ} {ts : List (Step Node Turn)} {n : Node}

/-- The peers of a node are those it starts with. -/
theorem ids_of_run (hrun : NodeRun id seeds now ts n) :
    n.volatile.seeds.ids = (Seeds.new id seeds).ids := by
  induction hrun with
  | nil => rfl
  | cons _ hnext ih => rw [(Node.handle_turned hnext).place.2.2, ih]

theorem isEmpty_of_run (hrun : NodeRun id seeds now ts n) (hseeds : seeds ≠ []) :
    n.volatile.seeds.isEmpty = false := by
  obtain ⟨seed, hseed⟩ := List.exists_mem_of_ne_nil seeds hseeds
  have hmem : seed.id ∈ (Seeds.new id seeds).ids :=
    Seeds.mem_ids_new.2 (List.mem_map_of_mem hseed)
  rw [Seeds.isEmpty_eq_false, ids_of_run hrun]
  exact List.ne_nil_of_mem hmem

theorem tracks_of_run (hrun : NodeRun id seeds now ts n) (hseeds : seeds ≠ []) :
    n.volatile.status = .leader → Tracks ts n := by
  induction hrun with
  | nil =>
      intro hlead
      have hstart : (Node.start id seeds now).volatile.status = .follower :=
        if_neg (by rwa [List.isEmpty_iff])
      rw [hstart] at hlead
      cases hlead
  | cons hrun hnext ih =>
      exact fun hafter => Tracks.next (isEmpty_of_run hrun hseeds) ih hnext hafter

/-- What a node with peers says about the batches its peers stored. -/
structure CountsPeers (ts : List (Step Node Turn)) (n : Node) : Prop where
  /-- While it leads, a peer's position is the last batch it confirmed in this
  leadership. -/
  matchIndex : n.volatile.status = .leader →
    ∀ seed ∈ n.volatile.seeds.inner, seed.matchIndex = lastConfirmed seed.id ts
  /-- While it leads, what is committed is the least of the positions. -/
  commitIndex : n.volatile.status = .leader →
    (∃ seed ∈ n.volatile.seeds.inner, seed.matchIndex = n.volatile.commitIndex) ∧
      ∀ seed ∈ n.volatile.seeds.inner, n.volatile.commitIndex ≤ seed.matchIndex
  /-- An index is answered when every peer has it; what then still waits is beyond the
  position of a peer. -/
  answered : ∀ t ∈ ts, ∀ resp index, (resp, some index) ∈ t.act.effects.answers →
    (∀ seed ∈ t.after.volatile.seeds.inner, index ≤ seed.matchIndex) ∧
      ∀ x ∈ t.after.volatile.inflights,
        ∃ seed ∈ t.after.volatile.seeds.inner, seed.matchIndex < x.1

/-- **Acknowledgements need every peer**, over every run of a node with peers. -/
theorem acks_need_every_peer (hrun : NodeRun id seeds now ts n) (hseeds : seeds ≠ [])
    (hfits : ∀ t ∈ ts, BatchFits t.act.input) : CountsPeers ts n := by
  constructor
  case matchIndex => exact fun hlead => (tracks_of_run hrun hseeds hlead).matchIndex
  case commitIndex =>
    intro hlead
    have htracks := tracks_of_run hrun hseeds hlead
    constructor
    · rw [htracks.commitIndex]
      refine Seeds.exists_matchIndex_eq (isEmpty_of_run hrun hseeds) fun seed hseed => ?_
      rw [htracks.matchIndex seed hseed]
      exact lastConfirmed_lt hfits seed.id
    · intro seed hseed
      rw [htracks.commitIndex]
      exact Seeds.computeLowestReplicatedIndex_le hseed
  case answered =>
    intro t ht resp index hans
    obtain ⟨h', hrun', hsuf, hnext⟩ := hrun.step_of_mem ht
    have hrun₁ := hrun.of_suffix hsuf
    have hpeers := isEmpty_of_run hrun' hseeds
    have hpeers₁ := isEmpty_of_run hrun₁ hseeds
    obtain ⟨_, hlead, _, _, hle⟩ := (Node.handle_turned hnext).confirmed hpeers hans
    constructor
    · exact fun seed hseed => hle.trans (Seeds.computeLowestReplicatedIndex_le hseed)
    · intro x hx
      have hbeyond := (Node.handle_turned hnext).waiting hpeers hans hx
      have htracks := tracks_of_run hrun₁ hseeds hlead
      obtain ⟨seed, hseed, heq⟩ := Seeds.exists_matchIndex_eq hpeers₁ fun seed hseed => by
        rw [htracks.matchIndex seed hseed]
        exact lastConfirmed_lt (fun t ht => hfits t (hsuf.subset ht)) seed.id
      exact ⟨seed, hseed, by omega⟩

/-- The request of two events is answered when both peers have confirmed it. -/
theorem acks_need_every_peer_replication :
    ∃ ts n, NodeRun (localhost 2113) (Config.trio.seeds (localhost 2113)) 0 ts n ∧
      (∃ t ∈ ts, t.act.effects.answers = [(0, some 2)]) ∧ CountsPeers ts n := by
  obtain ⟨h, c, hrun, hfits, hans⟩ := ClusterRun.exists_of_replay .trio replication
    (fun h _ => (∀ t ∈ Cluster.turns (localhost 2113) h, BatchFits t.act.input) ∧
      ∃ t ∈ Cluster.turns (localhost 2113) h, t.act.effects.answers = [(0, some 2)])
    (by decide +kernel)
  have hturns := hrun.turns_run (localhost 2113)
  exact ⟨_, _, hturns, hans, acks_need_every_peer hturns (by decide) hfits⟩

end

end Safety
end RaftPlayground
