/-
# The branches that break the protocol

Some branches of the handlers do what the protocol cannot survive.  Each
condition below names one of them, as a predicate of a node, what it reads from
outside and its next input, and holds when the turn does not take that branch.

| condition | the branch it excludes |
| --- | --- |
| `VotesOnce` | a vote in the own term by a node that led or ran in it |
| `KeepsVote` | a vote in the own term for a node recorded from its replication requests |
| `StepsDown` | a leader that adopts a higher term and goes on leading |
| `StartsClean` | a candidacy that inherits a tally |
| `CountsRunning` | an election won by a follower |
| `LandsClean` | a batch appended behind entries it should replace |
| `KeepsTail` | a batch that truncates entries it does not contradict |
| `AnswersNow` | an answer counted in a later leadership than its request |
| `TermFits`, `IndexFits` | a `u64` counter at its end |
-/

import RaftPlayground.Server.Turn

namespace RaftPlayground
namespace Safety

open Server

/-- A vote in the node's own term is granted by a follower only.  `reset` forgets
the vote of a node that wins, and `switch_to_candidate` records the id of
`Persistent::load`, so neither a leader nor a candidate remembers its vote. -/
def VotesOnce (n : Node) : Input → Prop
  | .msg (.requestVote term cand lli llt) =>
    term = n.persistent.term → (n.volatile.votedFor = none ∨ n.volatile.votedFor = some cand) →
      n.LogUpTo lli llt → n.volatile.status = .follower
  | _ => True

instance (n : Node) : ∀ i, Decidable (VotesOnce n i)
  | .msg (.requestVote ..) => inferInstanceAs (Decidable (_ → _ → _ → _))
  | .tick | .msg (.appendEntries ..) | .msg (.voteReceived ..) | .msg (.appendEntriesResp ..)
  | .msg (.appendStream ..) | .msg (.readStream ..) | .msg .status => isTrue trivial

/-- A vote in the node's own term does not go to the node it follows.
`on_append_entries` stores the sender in `voted_for`, over the vote cast. -/
def KeepsVote (n : Node) : Input → Prop
  | .msg (.requestVote term cand lli llt) =>
    term = n.persistent.term → n.LogUpTo lli llt →
      ¬(n.volatile.votedFor = some cand ∧ n.volatile.leader = some cand)
  | _ => True

instance (n : Node) : ∀ i, Decidable (KeepsVote n i)
  | .msg (.requestVote ..) => inferInstanceAs (Decidable (_ → _ → ¬(_ ∧ _)))
  | .tick | .msg (.appendEntries ..) | .msg (.voteReceived ..) | .msg (.appendEntriesResp ..)
  | .msg (.appendStream ..) | .msg (.readStream ..) | .msg .status => isTrue trivial

/-- A leader refuses no vote request of a higher term: the refusal adopts the
term without leaving the leadership. -/
def StepsDown (n : Node) : Input → Prop
  | .msg (.requestVote term _ lli llt) =>
    n.persistent.term < term → n.volatile.status = .leader → n.LogUpTo lli llt
  | _ => True

instance (n : Node) : ∀ i, Decidable (StepsDown n i)
  | .msg (.requestVote ..) => inferInstanceAs (Decidable (_ → _ → _))
  | .tick | .msg (.appendEntries ..) | .msg (.voteReceived ..) | .msg (.appendEntriesResp ..)
  | .msg (.appendStream ..) | .msg (.readStream ..) | .msg .status => isTrue trivial

/-- An election starts with an empty tally, which `switch_to_candidate` does not
see to. -/
def StartsClean (env : Env) (n : Node) : Input → Prop
  | .tick => n.Campaigns env → n.volatile.tally = ∅
  | _ => True

instance (env : Env) (n : Node) : ∀ i, Decidable (StartsClean env n i)
  | .tick => inferInstanceAs (Decidable (_ → _))
  | .msg _ => isTrue trivial

/-- A granted vote of the current term that completes the tally does not reach a
follower, which would lead on it. -/
def CountsRunning (n : Node) : Input → Prop
  | .msg (.voteReceived id term granted) =>
    granted = true → term = n.persistent.term →
      1 + (insert id n.volatile.tally).card > n.volatile.clusterSize / 2 →
        n.volatile.status ≠ .follower
  | _ => True

instance (n : Node) : ∀ i, Decidable (CountsRunning n i)
  | .msg (.voteReceived ..) => inferInstanceAs (Decidable (_ → _ → _ → _))
  | .tick | .msg (.requestVote ..) | .msg (.appendEntries ..) | .msg (.appendEntriesResp ..)
  | .msg (.appendStream ..) | .msg (.readStream ..) | .msg .status => isTrue trivial

/-- A batch that is stored while the log reaches beyond the previous entry finds a
tail of another term than the request, and nothing beyond the previous entry has
the term of that entry.  Otherwise `on_append_entries` appends it behind entries
that should have gone: it does not truncate a tail of its own term, and
`remove_uncommitted_entries_from` keeps what has the term of the previous entry. -/
def LandsClean (n : Node) : Input → Prop
  | .msg (.appendEntries term _ prev prevTerm _ es) =>
    n.persistent.term ≤ term → n.persistent.entries.containsLog prev prevTerm = true → es ≠ [] →
      prev < n.persistent.entries.lastIndex →
        n.persistent.entries.lastTerm ≠ term ∧
          ∀ e ∈ n.persistent.entries.inner, prev < e.index → e.term ≠ prevTerm
  | _ => True

instance (n : Node) : ∀ i, Decidable (LandsClean n i)
  | .msg (.appendEntries ..) => inferInstanceAs (Decidable (_ → _ → _ → _ → _ ∧ ∀ e ∈ _, _))
  | .tick | .msg (.requestVote ..) | .msg (.voteReceived ..) | .msg (.appendEntriesResp ..)
  | .msg (.appendStream ..) | .msg (.readStream ..) | .msg .status => isTrue trivial

/-- A batch that is stored while the log reaches beyond its end differs from the
log in the term of an entry.  Otherwise the truncation drops entries the batch
does not contradict. -/
def KeepsTail (n : Node) : Input → Prop
  | .msg (.appendEntries term _ prev prevTerm _ es) =>
    n.persistent.term ≤ term → n.persistent.entries.containsLog prev prevTerm = true →
      (∀ last ∈ es.getLast?, last.index < n.persistent.entries.lastIndex →
        ∃ e ∈ es, ∃ f ∈ n.persistent.entries.inner, f.index = e.index ∧ f.term ≠ e.term)
  | _ => True

instance (n : Node) : ∀ i, Decidable (KeepsTail n i)
  | .msg (.appendEntries _ _ _ _ _ es) =>
    inferInstanceAs (Decidable (_ → _ → ∀ last ∈ es.getLast?, _ → ∃ e ∈ _, ∃ f ∈ _, _))
  | .tick | .msg (.requestVote ..) | .msg (.voteReceived ..) | .msg (.appendEntriesResp ..)
  | .msg (.appendStream ..) | .msg (.readStream ..) | .msg .status => isTrue trivial

/-- A leader counts a stored batch in the term the follower stored it in.
`on_append_entries_resp` does not look at the term of the answer. -/
def AnswersNow (n : Node) : Input → Prop
  | .msg (.appendEntriesResp _ (some _) (some ⟨term, true⟩)) =>
    n.volatile.status = .leader → term = n.persistent.term
  | _ => True

instance (n : Node) : ∀ i, Decidable (AnswersNow n i)
  | .msg (.appendEntriesResp _ (some _) (some ⟨_, true⟩)) => inferInstanceAs (Decidable (_ → _))
  | .msg (.appendEntriesResp _ none _) | .msg (.appendEntriesResp _ (some _) none)
  | .msg (.appendEntriesResp _ (some _) (some ⟨_, false⟩))
  | .tick | .msg (.requestVote ..) | .msg (.voteReceived ..) | .msg (.appendEntries ..)
  | .msg (.appendStream ..) | .msg (.readStream ..) | .msg .status => isTrue trivial

/-- No election starts at the last term of `u64`. -/
def TermFits (env : Env) (n : Node) : Input → Prop
  | .tick => n.Campaigns env → n.persistent.term + 1 < 2 ^ 64
  | _ => True

instance (env : Env) (n : Node) : ∀ i, Decidable (TermFits env n i)
  | .tick => inferInstanceAs (Decidable (_ → _))
  | .msg _ => isTrue trivial

/-- The indices of an append request are below the end of `u64`. -/
def IndexFits (n : Node) : Input → Prop
  | .msg (.appendStream _ events _) =>
    n.volatile.status = .leader → n.persistent.entries.lastIndex + events.length < 2 ^ 64
  | _ => True

instance (n : Node) : ∀ i, Decidable (IndexFits n i)
  | .msg (.appendStream ..) => inferInstanceAs (Decidable (_ → _))
  | .tick | .msg (.requestVote ..) | .msg (.voteReceived ..) | .msg (.appendEntries ..)
  | .msg (.appendEntriesResp ..) | .msg (.readStream ..) | .msg .status => isTrue trivial

end Safety
end RaftPlayground
