/-
# Committed entries agree

State machine safety for the runs that keep what is committed, and a run of three
nodes in which a follower commits one of two entries of the same index.

A leader commits what it counts on every peer, a follower what its leader told it,
up to the end of the batch.  Either way the index is confirmed (`Holding.confirmed`),
so every member, committed as far or not, has the same prefix up to it.
-/

import RaftPlayground.Safety.Holding

namespace RaftPlayground
namespace Safety

open Protocol Server Cluster

/-- The entries of one index in a log. -/
def atIndex (l : List Entry) (i : ℕ) : List Entry := l.filter fun e => e.index = i

/-- A numbered log that continues a prefix has one entry of each index in it. -/
theorem atIndex_of_isPrefix {l : List Entry} (hl : Consecutive 0 l) {p : List Entry}
    (hp : p <+: l) {k : ℕ} {e : Entry} (he : p[k]? = some e) : atIndex l (k + 1) = [e] := by
  have hone := hl.filter_index (getElem?_of_isPrefix hp he)
  rwa [Nat.zero_add] at hone

/-- What every member holds, every member has as its only entry of the index. -/
theorem Upkeep.atIndex_of_held {cfg : Config} {d : Diary} {g : Annals cfg.members} {c : Cluster}
    (hinv : (holdings cfg).Holds d g c) {t k : ℕ} (hheld : ∀ p ∈ cfg.members, k + 1 ≤ g.held p t)
    {e : Entry} (he : (g.ledger.log t)[k]? = some e) {id : NodeId} (hid : id ∈ cfg.members) :
    atIndex (logOf c id) (k + 1) = [e] := by
  refine atIndex_of_isPrefix (hinv.nodes id).matched.numbered.consecutive
    (Upkeep.prefix_of_held hinv hheld hid) ?_
  rw [List.getElem?_take_of_lt (Nat.lt_succ_self k), he]

/-- **State machine safety.**  In every state of every run whose calls meet
`KeepsCommitted`, two members have the same entry, and no other, at an index both
have committed. -/
theorem committed_agree {cfg : Config} {started : NodeId → ℕ} {h : List (Step Cluster Action)}
    {c c₁ : Cluster} (hrun : ClusterRun cfg started h c)
    (hcond : ∀ st ∈ h, Cluster.Meets KeepsCommitted st) (hvisit : ClusterVisited cfg started h c₁)
    {A B : NodeId} (hA : A ∈ cfg.members) (hB : B ∈ cfg.members) {i : ℕ} (hpos : 1 ≤ i)
    (hle : i ≤ min (c₁.nodes A).volatile.commitIndex (c₁.nodes B).volatile.commitIndex) :
    ∃ a b, atIndex (logOf c₁ A) i = [a] ∧ atIndex (logOf c₁ B) i = [b] ∧
      a.term = b.term ∧ a.payload = b.payload := by
  obtain ⟨_, g, hinv⟩ := (holdings cfg).visited hrun hcond hvisit
  obtain ⟨t, hheld⟩ := (hinv.nodes A).confirmed.mono le_rfl (hle.trans (min_le_left ..))
  obtain ⟨k, rfl⟩ : ∃ k, i = k + 1 := ⟨i - 1, (Nat.sub_add_cancel hpos).symm⟩
  have hk : k < (g.ledger.log t).length := (hheld A hA).trans (g.held_le A t)
  have he := List.getElem?_eq_getElem hk
  exact ⟨_, _, Upkeep.atIndex_of_held hinv hheld he hA, Upkeep.atIndex_of_held hinv hheld he hB,
    rfl, rfl⟩

/-- A second batch after the first one is replicated, which tells a follower what is
committed. -/
def secondRound : List Action :=
  let A := localhost 2113
  let B := localhost 2114
  replication ++
    [.client ⟨9, 150⟩ A (.append "s" [[3]]), .tick ⟨10, 150⟩ A,
      .deliver ⟨11, 150⟩ (.entriesReq A B secondBatch)]

/-- The leader and a follower that heard of the commit in the second round. -/
theorem committed_agree_secondRound : ∃ h c, ClusterRun .trio (fun _ => 0) h c ∧
    2 ≤ min (c.nodes (localhost 2113)).volatile.commitIndex
        (c.nodes (localhost 2114)).volatile.commitIndex ∧
      ∃ a b, atIndex (logOf c (localhost 2113)) 2 = [a] ∧
        atIndex (logOf c (localhost 2114)) 2 = [b] ∧ a.term = b.term ∧ a.payload = b.payload := by
  obtain ⟨h, c, hrun, hcond, hle⟩ := ClusterRun.exists_of_replay .trio secondRound
    (fun h c => (∀ st ∈ h, Cluster.Meets KeepsCommitted st) ∧
      2 ≤ min (c.nodes (localhost 2113)).volatile.commitIndex
        (c.nodes (localhost 2114)).volatile.commitIndex) (by decide +kernel)
  exact ⟨h, c, hrun, hle, committed_agree hrun hcond (Run.visited hrun) (by decide) (by decide)
    (by decide) hle⟩

/-- The batch of a fourth event, behind a third one that is committed. -/
def thirdBatch : EntriesReq where
  leaderId := localhost 2113
  term := 1
  prevLogIndex := 3
  prevLogTerm := 1
  leaderCommit := 3
  entries := [⟨4, 1, putEvent "s" [4]⟩]

/-- A batch is stored twice by one follower and once by the other, and confirmed by
both. -/
def resentConfirmed : List Action :=
  let A := localhost 2113
  let B := localhost 2114
  let C := localhost 2115
  resent ++
    [.deliver ⟨14, 150⟩ (.entriesReq A C secondBatch),
      .deliver ⟨15, 150⟩ (.entriesResp B A (some 3) (some ⟨1, true⟩)),
      .deliver ⟨16, 150⟩ (.entriesResp C A (some 3) (some ⟨1, true⟩))]

/-- The follower that has the batch twice learns from the next one that it is committed. -/
def resentCommitted : List Action :=
  let A := localhost 2113
  let B := localhost 2114
  resentConfirmed ++
    [.client ⟨17, 150⟩ A (.append "s" [[4]]), .tick ⟨18, 150⟩ A,
      .deliver ⟨19, 150⟩ (.entriesReq A B thirdBatch)]

/-- Leader and follower have committed the index 3, of which the follower has two
entries. -/
theorem committed_twice : ∃ h c, ClusterRun .trio (fun _ => 0) h c ∧
    3 ≤ min (c.nodes (localhost 2113)).volatile.commitIndex
        (c.nodes (localhost 2114)).volatile.commitIndex ∧
      ¬ ∃ a b, atIndex (logOf c (localhost 2113)) 3 = [a] ∧
        atIndex (logOf c (localhost 2114)) 3 = [b] ∧ a.term = b.term ∧ a.payload = b.payload := by
  obtain ⟨h, c, hrun, hle, hlen⟩ := ClusterRun.exists_of_replay .trio resentCommitted
    (fun _ c => 3 ≤ min (c.nodes (localhost 2113)).volatile.commitIndex
        (c.nodes (localhost 2114)).volatile.commitIndex ∧
      (atIndex (logOf c (localhost 2114)) 3).length = 2) (by decide +kernel)
  refine ⟨h, c, hrun, hle, ?_⟩
  rintro ⟨_, _, _, hB, _⟩
  rw [hB, List.length_singleton] at hlen
  omega

end Safety
end RaftPlayground
