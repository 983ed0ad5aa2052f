/-
# Who can be elected

`on_request_vote` grants a vote of a new term if neither the last index nor the last term
of the voter is above that of the candidate.  The two are compared one by one, so logs are
ordered by the pair of both, and not all of them: a longer log with an older last term and
a shorter one with a newer last term refuse each other, in every term.

Of two nodes one gets the vote of the other exactly if their logs are not crossed in this
way, and whoever is left can elect one of them exactly if no two are.
-/

import RaftPlayground.Protocol.Ballots
import RaftPlayground.Server.Move
import Mathlib.Data.Finset.Lattice.Fold

namespace RaftPlayground
namespace Safety

open Protocol Server

/-- What a node tells of its log when it asks for a vote, ordered as the voters compare it. -/
def position (n : Node) : ℕ × ℕ := (n.persistent.entries.lastIndex, n.persistent.entries.lastTerm)

/-- The request `Seeds::request_vote` builds for a node that runs in the term. -/
def voteReqOf (n : Node) (term : ℕ) : VoteReq :=
  { candidateId := n.volatile.seeds.nodeId
    term
    lastLogIndex := n.persistent.entries.lastIndex
    lastLogTerm := n.persistent.entries.lastTerm }

/-- The voter, asked by the candidate in the term, grants its vote. -/
def VotesFor (voter candidate : Node) (term : ℕ) : Prop :=
  let req := voteReqOf candidate term
  (voter.onRequestVote req.term req.candidateId req.lastLogIndex req.lastLogTerm).2 = (term, true)

instance (voter candidate : Node) (term : ℕ) : Decidable (VotesFor voter candidate term) :=
  inferInstanceAs (Decidable (_ = _))

/-- One log is the longer one, and the other has the newer last term. -/
def Crossed (x y : Node) : Prop :=
  (x.persistent.entries.lastIndex < y.persistent.entries.lastIndex ∧
      y.persistent.entries.lastTerm < x.persistent.entries.lastTerm) ∨
    (y.persistent.entries.lastIndex < x.persistent.entries.lastIndex ∧
      x.persistent.entries.lastTerm < y.persistent.entries.lastTerm)

instance (x y : Node) : Decidable (Crossed x y) :=
  inferInstanceAs (Decidable ((_ ∧ _) ∨ (_ ∧ _)))

/-- One of the nodes gets the votes of all the others, in any term above theirs. -/
def Elects (c : Cluster) (Q : Finset NodeId) : Prop :=
  ∃ x ∈ Q, ∀ term, (∀ y ∈ Q, y ≠ x → (c.nodes y).persistent.term < term) →
    ∀ y ∈ Q, y ≠ x → VotesFor (c.nodes y) (c.nodes x) term

/-- Who gets whose vote. -/
structure Electable (c : Cluster) : Prop where
  /-- Of two nodes, one gets the vote of the other exactly if their logs are not crossed. -/
  pair : ∀ x y term term',
    (c.nodes y).persistent.term < term → (c.nodes x).persistent.term < term' →
      (VotesFor (c.nodes y) (c.nodes x) term ∨ VotesFor (c.nodes x) (c.nodes y) term' ↔
        ¬ Crossed (c.nodes x) (c.nodes y))
  /-- Whoever is left of a set of nodes can elect one of them exactly if no two of the set
  are crossed. -/
  whoeverIsLeft : ∀ S : Finset NodeId,
    (∀ Q ⊆ S, Q.Nonempty → Elects c Q) ↔ ∀ x ∈ S, ∀ y ∈ S, ¬ Crossed (c.nodes x) (c.nodes y)

section

variable {x y : Node} {term : ℕ}

/-- A vote of a new term goes to a log that is nowhere behind. -/
theorem votesFor_iff (h : y.persistent.term < term) :
    VotesFor y x term ↔ position y ≤ position x := by
  have hlog : VotesFor y x term ↔
      y.LogUpTo x.persistent.entries.lastIndex x.persistent.entries.lastTerm := by
    unfold VotesFor voteReqOf Node.onRequestVote Node.LogUpTo
    dsimp only
    rw [if_neg (not_lt.2 h.le), if_pos (Or.inl h)]
    split_ifs with hlog
    · exact iff_of_true rfl hlog
    · exact iff_of_false (by simp) hlog
  exact hlog

/-- Crossed logs are those that cannot be compared. -/
theorem not_crossed_iff : ¬ Crossed x y ↔ position x ≤ position y ∨ position y ≤ position x := by
  have hx : position x ≤ position y ↔
      x.persistent.entries.lastIndex ≤ y.persistent.entries.lastIndex ∧
        x.persistent.entries.lastTerm ≤ y.persistent.entries.lastTerm := Iff.rfl
  have hy : position y ≤ position x ↔
      y.persistent.entries.lastIndex ≤ x.persistent.entries.lastIndex ∧
        y.persistent.entries.lastTerm ≤ x.persistent.entries.lastTerm := Iff.rfl
  rw [hx, hy, Crossed]
  omega

/-- The elected one is the one that ranks above the others. -/
theorem elects_iff {c : Cluster} {Q : Finset NodeId} :
    Elects c Q ↔ ∃ x ∈ Q, ∀ y ∈ Q, position (c.nodes y) ≤ position (c.nodes x) := by
  constructor
  · rintro ⟨x, hx, hvotes⟩
    refine ⟨x, hx, fun y hy => ?_⟩
    rcases eq_or_ne y x with rfl | hne
    · exact le_rfl
    · -- a term above all of them
      let terms : NodeId → ℕ := fun y => (c.nodes y).persistent.term
      have hfresh : ∀ y ∈ Q, terms y < Q.sup terms + 1 :=
        fun y hy => Nat.lt_succ_of_le (Finset.le_sup hy)
      exact (votesFor_iff (hfresh y hy)).1 (hvotes _ (fun y hy _ => hfresh y hy) y hy hne)
  · rintro ⟨x, hx, htop⟩
    refine ⟨x, hx, fun term hterm y hy hne => ?_⟩
    exact (votesFor_iff (hterm y hy hne)).2 (htop y hy)

end

/-- **Who is electable.**  Two nodes with crossed logs, and no others, refuse each other in
every term; whoever is left of a set of nodes can elect one of them if and only if the set
has no crossed logs. -/
theorem electable_unless_crossed (c : Cluster) : Electable c := by
  constructor
  case pair =>
    intro x y term term' hterm hterm'
    rw [votesFor_iff hterm, votesFor_iff hterm', not_crossed_iff, or_comm]
  case whoeverIsLeft =>
    intro S
    simp only [elects_iff, not_crossed_iff]
    exact exists_top_iff_total

/-- The leader of the first term stores two events that no peer gets.  The node that voted
for it wins the second term, and stores one. -/
def crossing : List Action :=
  let A := localhost 2113
  let B := localhost 2114
  let C := localhost 2115
  firstElection ++
    [.client ⟨3, 150⟩ A (.append "s" [[1], [2]]),
      .tick ⟨4, 150⟩ C, .deliver ⟨5, 150⟩ (.voteReq C B ⟨C, 2, 0, 0⟩),
      .deliver ⟨6, 150⟩ (.voteResp B C 2 true), .client ⟨7, 150⟩ C (.append "s" [[3]])]

/-- Two nodes of a cluster that refuse each other, in any terms above theirs. -/
theorem crossed_logs_elect_nobody : ∃ h c, ClusterRun .trio (fun _ => 0) h c ∧
    position (c.nodes (localhost 2113)) = (2, 1) ∧ position (c.nodes (localhost 2115)) = (1, 2) ∧
      ¬ (VotesFor (c.nodes (localhost 2115)) (c.nodes (localhost 2113)) 3 ∨
        VotesFor (c.nodes (localhost 2113)) (c.nodes (localhost 2115)) 3) ∧
      ¬ Elects c {localhost 2113, localhost 2115} := by
  obtain ⟨h, c, hrun, hA, hC, hvotes⟩ := ClusterRun.exists_of_replay .trio crossing
    (fun _ c => position (c.nodes (localhost 2113)) = (2, 1) ∧
      position (c.nodes (localhost 2115)) = (1, 2) ∧
      ¬ (VotesFor (c.nodes (localhost 2115)) (c.nodes (localhost 2113)) 3 ∨
        VotesFor (c.nodes (localhost 2113)) (c.nodes (localhost 2115)) 3)) (by decide +kernel)
  refine ⟨h, c, hrun, hA, hC, hvotes, fun helects => ?_⟩
  obtain ⟨x, hx, htop⟩ := elects_iff.1 helects
  have hA' := htop (localhost 2113) (by decide)
  have hC' := htop (localhost 2115) (by decide)
  rw [hA] at hA'
  rw [hC] at hC'
  rcases Finset.mem_insert.1 hx with rfl | hx
  · rw [hA] at hC'
    exact absurd hC' (by decide)
  · rw [Finset.mem_singleton.1 hx, hC] at hA'
    exact absurd hA' (by decide)

end Safety
end RaftPlayground
