/-
# The vote a node remembers

`voted_for` is of the current term where each change of the term writes it.  A candidacy
writes the id of the node, a granted vote that of the candidate, a replication request that
of the leader, and an answer of a higher term nothing.  The refusal of a vote request of a
higher term changes the term alone: what it finds in `voted_for` was recorded in an older
term, and refuses every other candidate of the new one.

The turns of the current term are those back to the one that set it last (`current`), and
the vote belongs to the term if one of them recorded it.
-/

import RaftPlayground.Safety.Vote
import RaftPlayground.Safety.Timeout

namespace RaftPlayground
namespace Safety

open Protocol Server

/-- The turns of the current term, with the one that set it. -/
def current : List (Step Node Turn) → List (Step Node Turn)
  | [] => []
  | t :: ts =>
    if t.after.persistent.term = t.before.persistent.term then t :: current ts else [t]

/-- The turn is a vote for the node `c`, a candidacy under the id `c`, or a replication
request of `c` that is not stale. -/
inductive Records (t : Step Node Turn) (c : NodeId) : Prop
  | voted (grants : Grants t t.after.persistent.term c)
  | ran (campaigned : Campaigned t) (own : c = t.before.persistent.id)
  | followed {term prev prevTerm commit es}
      (input : t.act.input = .msg (.appendEntries term c prev prevTerm commit es))
      (le : t.before.persistent.term ≤ term)

/-- The vote a node remembers is one of its current term. -/
structure VoteBelongs (ts : List (Step Node Turn)) (n : Node) : Prop where
  recorded : ∀ c, n.volatile.votedFor = some c → ∃ t ∈ current ts, Records t c
  /-- So a node that recorded none votes for the first who asks with a log that is nowhere
  behind. -/
  free : (∀ t ∈ current ts, ∀ c, ¬ Records t c) → ∀ cand lli llt, n.LogUpTo lli llt →
    (n.onRequestVote n.persistent.term cand lli llt).2 = (n.persistent.term, true)

/-- A refusal that raises the term finds no vote to leave behind. -/
def ForgetsVote (n : Node) : Input → Prop
  | .msg (.requestVote term _ lli llt) =>
    n.persistent.term < term → ¬ n.LogUpTo lli llt → n.volatile.votedFor = none
  | _ => True

instance (n : Node) : ∀ i, Decidable (ForgetsVote n i)
  | .msg (.requestVote ..) => inferInstanceAs (Decidable (_ → _ → _))
  | .tick | .msg (.appendEntries ..) | .msg (.voteReceived ..) | .msg (.appendEntriesResp ..)
  | .msg (.appendStream ..) | .msg (.readStream ..) | .msg .status => isTrue trivial

section

variable {ts : List (Step Node Turn)} {t : Step Node Turn} {env : Env} {n n' : Node} {i : Input}
  {eff : Effects} {c : NodeId}

theorem mem_current_self : t ∈ current (t :: ts) := by
  rw [current]
  split_ifs <;> exact List.mem_cons_self

theorem mem_current_of_mem {s : Step Node Turn} (hs : s ∈ current ts)
    (hterm : t.after.persistent.term = t.before.persistent.term) : s ∈ current (t :: ts) := by
  rw [current, if_pos hterm]
  exact List.mem_cons_of_mem _ hs

/-- What a turn does to the vote a node remembers. -/
inductive WritesVote (n : Node) (t : Step Node Turn) (n' : Node) : Prop
  | kept (vote : n'.volatile.votedFor = n.volatile.votedFor)
      (term : n'.persistent.term = n.persistent.term)
  | forgot (vote : n'.volatile.votedFor = none)
  | wrote (c : NodeId) (vote : n'.volatile.votedFor = some c) (records : Records t c)

/-- **One turn** that leaves no vote of an older term behind. -/
theorem turned_writesVote (ht : n.Turned env i n' eff) (hforgets : ForgetsVote n i) :
    WritesVote n ⟨n, ⟨env, i, eff⟩, n'⟩ n' := by
  cases ht with
  | candidacy due => exact .wrote _ rfl (.ran ⟨rfl, due⟩ rfl)
  | voteGranted => exact .wrote _ rfl (.voted ⟨_, _, _, rfl, rfl⟩)
  | @voteRefused term cand lli llt le free log =>
      refine .forgot ?_
      rcases free with hlt | hnone
      · exact hforgets hlt log
      · exact hnone
  | outrun => exact .forgot rfl
  | elected => exact .forgot rfl
  | entriesUnknown le | entriesEmpty le | entriesStored le => exact .wrote _ rfl (.followed rfl le)
  | _ => exact .kept rfl rfl

theorem recorded_turned (ht : n.Turned env i n' eff) (hforgets : ForgetsVote n i)
    (h : ∀ c, n.volatile.votedFor = some c → ∃ t ∈ current ts, Records t c) :
    ∀ c, n'.volatile.votedFor = some c →
      ∃ t ∈ current (⟨n, ⟨env, i, eff⟩, n'⟩ :: ts), Records t c := by
  intro c hc
  cases turned_writesVote ht hforgets with
  | kept vote term =>
      obtain ⟨t, ht, hrecords⟩ := h c (vote ▸ hc)
      exact ⟨t, mem_current_of_mem ht term, hrecords⟩
  | forgot vote => exact nomatch vote.symm.trans hc
  | wrote c' vote records =>
      obtain rfl := Option.some.inj (vote.symm.trans hc)
      exact ⟨_, mem_current_self, records⟩

/-- A node that remembers no vote grants it in its own term. -/
theorem VoteBelongs.of_recorded
    (h : ∀ c, n.volatile.votedFor = some c → ∃ t ∈ current ts, Records t c) :
    VoteBelongs ts n := by
  refine ⟨h, fun hnone cand lli llt hlog => ?_⟩
  have hvote : n.volatile.votedFor = none := by
    rw [Option.eq_none_iff_forall_ne_some]
    intro c hc
    obtain ⟨t, ht, hrecords⟩ := h c hc
    exact hnone t ht c hrecords
  rw [Node.onRequestVote, if_neg (lt_irrefl _), if_pos (Or.inr hvote)]
  exact congrArg Prod.snd (if_pos hlog)

/-- A refusal that raises the term records nothing, and is the first turn of the term, so a
vote that belongs to it was not there before. -/
theorem VoteBelongs.forgets (h : VoteBelongs (⟨n, ⟨env, i, eff⟩, n'⟩ :: ts) n')
    (ht : n.Turned env i n' eff) : ForgetsVote n i := by
  cases ht with
  | idle quiet =>
      cases i with
      | tick => trivial
      | msg m =>
          cases m with
          | requestVote => exact quiet.elim
          | _ => trivial
  | voteStale stale => exact fun hlt => absurd stale hlt.not_gt
  | voteGranted _ _ log => exact fun _ hlog => absurd log hlog
  | voteRepeated eq => exact fun hlt => absurd eq hlt.ne
  | @voteRefused term =>
      intro hlt _
      rw [Option.eq_none_iff_forall_ne_some]
      intro c hc
      obtain ⟨t, hmem, hrecords⟩ := h.recorded c hc
      rw [current, if_neg hlt.ne', List.mem_singleton] at hmem
      subst hmem
      cases hrecords with
      | voted grants => exact not_grants_of_refusal (Or.inr ⟨term, rfl⟩) _ c grants
      | ran campaigned => exact nomatch campaigned.1
      | followed input => simp at input
  | _ => trivial

end

section

variable {id : NodeId} {seeds : List Seed} {now : ℕ} {ts : List (Step Node Turn)} {n : Node}

theorem recorded_of_run (hrun : NodeRun id seeds now ts n)
    (hforgets : ∀ t ∈ ts, ForgetsVote t.before t.act.input) :
    ∀ c, n.volatile.votedFor = some c → ∃ t ∈ current ts, Records t c := by
  refine Run.invariant (fun t => ForgetsVote t.before t.act.input)
    (fun ts n => ∀ c, n.volatile.votedFor = some c → ∃ t ∈ current ts, Records t c)
    (fun c h => nomatch (show none = some c from h)) ?_ hrun hforgets
  exact fun _ _ _ _ _ h hnext hforget => recorded_turned (Node.handle_turned hnext) hforget h

/-- **When the recorded vote belongs to the current term.**  Over every run of a node, it
does in every state if and only if no refusal that raises the term finds a vote recorded. -/
theorem vote_belongs_iff (hrun : NodeRun id seeds now ts n) :
    Guarded (fun ts t => VoteBelongs (t :: ts) t.after) ts ↔
      ∀ t ∈ ts, ForgetsVote t.before t.act.input := by
  rw [← guarded_const]
  refine hrun.guarded_iff fun ts n t n' hrun hnext hforgets => ?_
  rw [guarded_const] at hforgets
  have ht : n.Turned t.env t.input n' t.effects := Node.handle_turned hnext
  constructor
  · exact fun hbelongs => hbelongs.forgets ht
  · exact fun hforget => .of_recorded (recorded_turned ht hforget (recorded_of_run hrun hforgets))

end

/-- Two nodes run in one term, and the winner keeps no vote. -/
theorem vote_belongs_iff_rivals :
    ∃ ts n, NodeRun (localhost 2113) (Config.trio.seeds (localhost 2113)) 0 ts n ∧ ts ≠ [] ∧
      Guarded (fun ts t => VoteBelongs (t :: ts) t.after) ts := by
  obtain ⟨h, c, hrun, hne, hforgets⟩ := ClusterRun.exists_of_replay .trio rivals
    (fun h _ => Cluster.turns (localhost 2113) h ≠ [] ∧
      ∀ t ∈ Cluster.turns (localhost 2113) h, ForgetsVote t.before t.act.input)
    (by decide +kernel)
  have hturns := hrun.turns_run (localhost 2113)
  exact ⟨_, _, hturns, hne, (vote_belongs_iff hturns).2 hforgets⟩

/-- The leader of the first term replicates an event to the node that voted for it.  That
node then refuses the third one, which runs for the second term with an empty log. -/
def refusing : List Action :=
  let A := localhost 2113
  let B := localhost 2114
  let C := localhost 2115
  firstElection ++
    [.client ⟨3, 150⟩ A (.append "s" [[1]]), .tick ⟨4, 150⟩ A,
      .deliver ⟨5, 150⟩ (.entriesReq A C ⟨A, 1, 0, 1, 0, [⟨1, 1, putEvent "s" [1]⟩]⟩),
      .tick ⟨6, 150⟩ B, .tick ⟨150000000, 150⟩ B,
      .deliver ⟨150000001, 150⟩ (.voteReq B C ⟨B, 2, 0, 0⟩)]

/-- In the second term, in which it recorded nothing, the node remembers the leader of the
first, and refuses a candidate with its own log. -/
theorem vote_of_an_older_term : ∃ h c, ClusterRun .trio (fun _ => 0) h c ∧
    let n := c.nodes (localhost 2115)
    n.persistent.term = 2 ∧ n.volatile.votedFor = some (localhost 2113) ∧
      (∀ t ∈ current (Cluster.turns (localhost 2115) h), ∀ x, ¬ Records t x) ∧
      n.LogUpTo 1 1 ∧ (n.onRequestVote 2 (localhost 2114) 1 1).2 = (2, false) ∧
      ¬ VoteBelongs (Cluster.turns (localhost 2115) h) n := by
  obtain ⟨h, c, hrun, hterm, hvote, hturns, hlog, hrefused⟩ :=
    ClusterRun.exists_of_replay .trio refusing
      (fun h c => let n := c.nodes (localhost 2115)
        n.persistent.term = 2 ∧ n.volatile.votedFor = some (localhost 2113) ∧
          (current (Cluster.turns (localhost 2115) h)).map
              (fun t => (t.act.input, t.act.effects.reply)) =
            [(.msg (.requestVote 2 (localhost 2114) 0 0), some (2, false))] ∧
          n.LogUpTo 1 1 ∧ (n.onRequestVote 2 (localhost 2114) 1 1).2 = (2, false))
      (by decide +kernel)
  have hnone : ∀ t ∈ current (Cluster.turns (localhost 2115) h), ∀ x, ¬ Records t x := by
    intro t ht x hrecords
    have hmem := List.mem_map_of_mem (f := fun t => (t.act.input, t.act.effects.reply)) ht
    rw [hturns, List.mem_singleton, Prod.mk.injEq] at hmem
    obtain ⟨hinput, hreply⟩ := hmem
    cases hrecords with
    | voted grants =>
        obtain ⟨_, _, _, _, hgranted⟩ := grants
        simp [hreply] at hgranted
    | ran campaigned => exact nomatch hinput.symm.trans campaigned.1
    | followed input => simp [hinput] at input
  refine ⟨h, c, hrun, hterm, hvote, hnone, hlog, hrefused, fun hbelongs => ?_⟩
  obtain ⟨t, ht, hrecords⟩ := hbelongs.recorded _ hvote
  exact hnone t ht _ hrecords

end Safety
end RaftPlayground
