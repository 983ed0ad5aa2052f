/-
# A higher term, and who steps down

Four handlers see the term of a peer, and each treats a higher one its own way.
`on_append_entries` always adopts it and follows; `on_vote_received` does so
unless the node leads; `on_request_vote` adopts it but follows only when it grants
the vote; `on_append_entries_resp` does not look at it.  `Obeys` is exactly the
condition under which the node ends up as a follower in the higher term.
-/

import RaftPlayground.Safety.Conditions
import RaftPlayground.Server.Move

namespace RaftPlayground
namespace Safety

open Protocol Server

/-- The term of a peer a message carries. -/
def termOf : Msg → Option ℕ
  | .requestVote term _ _ _ | .appendEntries term _ _ _ _ _ | .voteReceived _ term _
  | .appendEntriesResp _ _ (some ⟨term, _⟩) => some term
  | .appendEntriesResp _ _ none | .appendStream .. | .readStream .. | .status => none

/-- The node leaves what it does and follows, when the term of the message is a
higher one. -/
def Obeys (n : Node) : Msg → Prop
  | .requestVote _ _ lli llt => n.LogUpTo lli llt ∨ n.volatile.status = .follower
  | .appendEntries .. => True
  | .voteReceived .. => n.volatile.status ≠ .leader
  | _ => False

/-- Handling the message ends with the node as a follower in the term. -/
def FollowsIn (env : Env) (n : Node) (m : Msg) (t : ℕ) : Prop :=
  ∃ n' eff, n.handle env (.msg m) = some (n', eff) ∧ n'.persistent.term = t ∧
    n'.volatile.status = .follower

section

variable {env : Env} {n : Node} {t : ℕ}

theorem followsIn_of_handle {n' : Node} {eff : Effects} {m : Msg}
    (h : n.handle env (.msg m) = some (n', eff)) :
    FollowsIn env n m t ↔ n'.persistent.term = t ∧ n'.volatile.status = .follower := by
  constructor
  · rintro ⟨_, _, h', hp⟩
    obtain ⟨rfl, rfl⟩ := Prod.mk.inj (Option.some.inj (h.symm.trans h'))
    exact hp
  · exact fun hp => ⟨n', eff, h, hp⟩

/-- A vote request of a higher term: the term is adopted in any case. -/
theorem followsIn_requestVote (hlt : n.persistent.term < t) (cand : NodeId) (lli llt : ℕ) :
    FollowsIn env n (.requestVote t cand lli llt) t ↔
      n.LogUpTo lli llt ∨ n.volatile.status = .follower := by
  have hhandle : n.handle env (.msg (.requestVote t cand lli llt)) =
      some ((n.onRequestVote t cand lli llt).1,
        { reply := some (n.onRequestVote t cand lli llt).2 }) := rfl
  rw [followsIn_of_handle hhandle]
  unfold Node.onRequestVote
  rw [if_neg (Nat.lt_asymm hlt), if_pos (Or.inl hlt)]
  unfold Node.LogUpTo
  dsimp only
  split_ifs with hlog
  · exact ⟨fun _ => Or.inl hlog, fun _ => ⟨rfl, rfl⟩⟩
  · exact ⟨fun h => Or.inr h.2, fun h => ⟨rfl, h.resolve_left hlog⟩⟩

/-- A replication request of a higher term never makes the handler fail. -/
theorem followsIn_appendEntries (hlt : n.persistent.term < t) (id : NodeId)
    (prev prevTerm commit : ℕ) (es : List Entry) :
    FollowsIn env n (.appendEntries t id prev prevTerm commit es) t := by
  have hstep : ∃ n' result, n.onAppendEntries env t id prev prevTerm commit es = some (n', result) ∧
      n'.persistent.term = t ∧ n'.volatile.status = .follower := by
    unfold Node.onAppendEntries
    rw [if_neg (Nat.lt_asymm hlt)]
    dsimp only
    by_cases hknown : (n.followLeader env t id).persistent.entries.containsLog prev prevTerm = true
    · rw [if_neg (not_not.2 hknown)]
      by_cases hempty : es.isEmpty = true
      · rw [if_pos hempty]
        exact ⟨_, _, rfl, rfl, rfl⟩
      · obtain ⟨last, hlast⟩ : ∃ last, es.getLast? = some last :=
          Option.ne_none_iff_exists'.1 fun h => hempty (by rw [List.getLast?_eq_none_iff.1 h]; rfl)
        rw [if_neg hempty]
        simp only [hlast, Entries.append, Option.bind_eq_bind, Option.bind_some]
        exact ⟨_, _, rfl, rfl, rfl⟩
    · rw [if_pos hknown]
      exact ⟨_, _, rfl, rfl, rfl⟩
  obtain ⟨n', result, hn, hp⟩ := hstep
  exact ⟨n', { reply := some result }, by simp [Node.handle, hn], hp⟩

/-- A vote answer of a higher term: a leader does not read it. -/
theorem followsIn_voteReceived (hlt : n.persistent.term < t) (id : NodeId) (granted : Bool) :
    FollowsIn env n (.voteReceived id t granted) t ↔ n.volatile.status ≠ .leader := by
  have hhandle : n.handle env (.msg (.voteReceived id t granted)) =
      some ((n.onVoteReceived env id t granted).1, (n.onVoteReceived env id t granted).2) := rfl
  rw [followsIn_of_handle hhandle]
  unfold Node.onVoteReceived
  by_cases hlead : n.volatile.status = .leader
  · rw [if_pos (Or.inr hlead)]
    exact ⟨fun h => absurd h.1 hlt.ne, fun h => absurd hlead h⟩
  · rw [if_neg (not_or.2 ⟨Nat.lt_asymm hlt, hlead⟩), if_pos hlt]
    exact ⟨fun _ => hlead, fun _ => ⟨rfl, rfl⟩⟩

/-- The answer to a replication request does not change the term. -/
theorem not_followsIn_appendEntriesResp (hlt : n.persistent.term < t) (id : NodeId)
    (batchEnd : Option ℕ) (resp : Option AppendEntriesResp) :
    ¬ FollowsIn env n (.appendEntriesResp id batchEnd resp) t := by
  rintro ⟨n', eff, h, hterm, _⟩
  have hsame : n'.persistent.term = n.persistent.term := by
    cases Node.handle_turned h <;> rfl
  omega

/-- **Exactly when a higher term makes a node step down.** -/
theorem steps_down_iff (env : Env) (n : Node) (m : Msg) (hm : termOf m = some t)
    (hlt : n.persistent.term < t) : FollowsIn env n m t ↔ Obeys n m := by
  cases m with
  | requestVote term cand lli llt =>
      obtain rfl := Option.some.inj hm
      exact followsIn_requestVote hlt cand lli llt
  | appendEntries term id prev prevTerm commit es =>
      obtain rfl := Option.some.inj hm
      exact iff_true_intro (followsIn_appendEntries hlt id prev prevTerm commit es)
  | voteReceived id term granted =>
      obtain rfl := Option.some.inj hm
      exact followsIn_voteReceived hlt id granted
  | appendEntriesResp id batchEnd resp =>
      exact iff_false_intro (not_followsIn_appendEntriesResp hlt id batchEnd resp)
  | appendStream | readStream | status => exact nomatch hm

end

/-- The leader of the first term has an entry, and so has the second node when it runs for the
second term: the leader grants it the vote and follows. -/
theorem steps_down_iff_deposed : ∃ h c, ClusterRun .trio (fun _ => 0) h c ∧
    (c.nodes (localhost 2113)).volatile.status = .leader ∧
      (c.nodes (localhost 2113)).persistent.entries.inner = [⟨1, 1, putEvent "s" [1]⟩] ∧
      .voteReq (localhost 2114) (localhost 2113) ⟨localhost 2114, 2, 1, 1⟩ ∈ c.net ∧
        FollowsIn ⟨200000000, 150⟩ (c.nodes (localhost 2113))
          (.requestVote 2 (localhost 2114) 1 1) 2 := by
  let A := localhost 2113
  let B := localhost 2114
  obtain ⟨h, c, hrun, hlead, hlog, hnet, hterm, hobeys⟩ := ClusterRun.exists_of_replay .trio
    (firstElection ++
      [.client ⟨3, 150⟩ A (.append "s" [[1]]), .tick ⟨4, 150⟩ A,
        .deliver ⟨5, 150⟩ (.entriesReq A B ⟨A, 1, 0, 1, 0, [⟨1, 1, putEvent "s" [1]⟩]⟩),
        .tick ⟨200000000, 150⟩ B])
    (fun _ c =>
      (c.nodes (localhost 2113)).volatile.status = .leader ∧
        (c.nodes (localhost 2113)).persistent.entries.inner = [⟨1, 1, putEvent "s" [1]⟩] ∧
        .voteReq (localhost 2114) (localhost 2113) ⟨localhost 2114, 2, 1, 1⟩ ∈ c.net ∧
        (c.nodes (localhost 2113)).persistent.term < 2 ∧
        (c.nodes (localhost 2113)).LogUpTo 1 1)
    (by decide +kernel)
  exact ⟨h, c, hrun, hlead, hlog, hnet,
    (steps_down_iff ⟨200000000, 150⟩ _ (.requestVote 2 (localhost 2114) 1 1) rfl hterm).2
      (Or.inl hobeys)⟩

/-- The leader of the first term has an entry when the third node, which has none,
runs for the second. -/
def higherTerm : List Action :=
  firstElection ++
    [.client ⟨3, 150⟩ (localhost 2113) (.append "s" [[0]]),
      .tick ⟨200000000, 150⟩ (localhost 2115)]

/-- A leader adopts a higher term and goes on leading, in a state a cluster
reaches and with a request in flight there. -/
theorem leader_keeps_leading : ∃ h c req, ClusterRun .trio (fun _ => 0) h c ∧
    .voteReq (localhost 2115) (localhost 2113) req ∈ c.net ∧
      (c.nodes (localhost 2113)).persistent.term < req.term ∧
        ¬ FollowsIn ⟨200000001, 150⟩ (c.nodes (localhost 2113))
          (.requestVote req.term req.candidateId req.lastLogIndex req.lastLogTerm) req.term := by
  obtain ⟨h, c, hrun, hnet, hterm, hlead, hlog⟩ :=
    ClusterRun.exists_of_replay .trio higherTerm
      (fun _ c =>
        .voteReq (localhost 2115) (localhost 2113) ⟨localhost 2115, 2, 0, 0⟩ ∈ c.net ∧
          (c.nodes (localhost 2113)).persistent.term < 2 ∧
            (c.nodes (localhost 2113)).volatile.status = .leader ∧
              ¬ (c.nodes (localhost 2113)).LogUpTo 0 0) (by decide +kernel)
  refine ⟨h, c, _, hrun, hnet, hterm, ?_⟩
  rw [followsIn_requestVote hterm]
  exact not_or.2 ⟨hlog, by rw [hlead]; decide⟩

end Safety
end RaftPlayground
