/-
# Quorums overlap

`have_we_reached_quorum` compares `1 + tally.len()` with half of `cluster_size`, rounded
down.  The one is the candidate's own vote, which is not in the tally, and the cluster is
the candidate and its seeds.  So where the seeds are the other members and the tally is of
them, the check passes exactly if the candidate and its tally are more than half of the
members (`Electing.quorum_iff`), for an odd cluster as for an even one, and any two such
halves meet (`quorums_overlap`).
-/

import RaftPlayground.Protocol.Ballots
import RaftPlayground.Server.Cluster

namespace RaftPlayground
namespace Safety

open Protocol Server

/-- A member whose seeds are the other members, with a tally of them. -/
structure Electing (members : Finset NodeId) (c : NodeId) (v : Volatile) : Prop where
  member : c ∈ members
  seeds : v.seeds.ids.toFinset = members.erase c
  tally : v.tally ⊆ v.seeds.ids.toFinset

section

variable {members : Finset NodeId} {c c₁ c₂ : NodeId} {v v₁ v₂ : Volatile}

/-- The cluster a member counts is the whole cluster. -/
theorem Electing.clusterSize (h : Electing members c v) : v.clusterSize = members.card := by
  have hnodup : v.seeds.ids.Nodup := v.seeds.nodup
  have hlen : v.seeds.len = (members.erase c).card := by
    rw [← h.seeds, List.toFinset_card_of_nodup hnodup, Seeds.length_ids]
  rw [Volatile.clusterSize, hlen, Nat.add_comm, Finset.card_erase_add_one h.member]

/-- **The check passes** exactly if the member and its tally are a majority. -/
theorem Electing.quorum_iff (h : Electing members c v) :
    v.haveWeReachedQuorum = true ↔ Majority members (insert c v.tally) := by
  rw [majority_insert_iff h.member (h.seeds ▸ h.tally), Volatile.haveWeReachedQuorum,
    decide_eq_true_iff, h.clusterSize]

/-- **Quorums overlap.**  Two members that have both reached their quorum, each with its own
vote, have a member in common. -/
theorem quorums_overlap (h₁ : Electing members c₁ v₁) (h₂ : Electing members c₂ v₂)
    (hquorum₁ : v₁.haveWeReachedQuorum = true) (hquorum₂ : v₂.haveWeReachedQuorum = true) :
    ∃ p, p ∈ insert c₁ v₁.tally ∧ p ∈ insert c₂ v₂.tally :=
  (h₁.quorum_iff.1 hquorum₁).exists_mem (h₂.quorum_iff.1 hquorum₂)

end

/-- Two members of five, each with the votes of two others. -/
theorem quorums_overlap_rivals : ∃ v₁ v₂ : Volatile,
    v₁.tally = {localhost 2114, localhost 2115} ∧ v₁.haveWeReachedQuorum = true ∧
    v₂.tally = {localhost 2115, localhost 2116} ∧ v₂.haveWeReachedQuorum = true ∧
    ∃ p, p ∈ insert (localhost 2113) v₁.tally ∧ p ∈ insert (localhost 2117) v₂.tally := by
  let v (c : NodeId) (tally : Finset NodeId) : Volatile :=
    { Volatile.new c (Config.quintet.seeds c) 0 with tally }
  have h₁ : Electing Config.quintet.members.toFinset (localhost 2113)
      (v (localhost 2113) {localhost 2114, localhost 2115}) :=
    ⟨by decide +kernel, by decide +kernel, by decide +kernel⟩
  have h₂ : Electing Config.quintet.members.toFinset (localhost 2117)
      (v (localhost 2117) {localhost 2115, localhost 2116}) :=
    ⟨by decide +kernel, by decide +kernel, by decide +kernel⟩
  have hquorum₁ : (v (localhost 2113) {localhost 2114, localhost 2115}).haveWeReachedQuorum =
      true := by decide +kernel
  have hquorum₂ : (v (localhost 2117) {localhost 2115, localhost 2116}).haveWeReachedQuorum =
      true := by decide +kernel
  exact ⟨_, _, rfl, hquorum₁, rfl, hquorum₂, quorums_overlap h₁ h₂ hquorum₁ hquorum₂⟩

end Safety
end RaftPlayground
