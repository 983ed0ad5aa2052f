/-
# What a heartbeat tells a follower

Every replication request carries the commit index of the leader, and the leader learns
of a commit by the answers to the batch that made it one.  When the log is quiet the
requests that follow have no entries, and `on_append_entries` returns from those before
it looks at the commit index.  So a follower with the whole log is told in every round
and takes it over in none: the round leaves the commit index where it should be only if
it was there before.
-/

import RaftPlayground.Server.Round

namespace RaftPlayground
namespace Safety

open Protocol Server

section

variable {id : NodeId} {log : List Entry} {seed : Seed} {p : Pair}

/-- A round between equal logs is a heartbeat, and commits nothing. -/
theorem round_equal (hf : Facing id log seed p) (hnext : seed.nextIndex = log.length + 1)
    (hlog : Consecutive 0 log) (hequal : p.got = log) (env env' : Env) :
    ∃ req resp p', p.round id env env' = some (req, resp, p') ∧
      p'.follower.volatile.commitIndex = p.follower.volatile.commitIndex := by
  obtain ⟨ok, p', hround, hprobed⟩ := hf.round hlog le_rfl hnext env env'
  refine ⟨_, _, p', hround, ?_⟩
  subst hequal
  cases hprobed with
  | refused unknown =>
      rw [List.take_length] at unknown
      exact absurd (hlog.containsLog_end.symm.trans unknown) (by decide)
  | heartbeat _ _ _ _ commit => exact commit
  | stored _ more => exact absurd more (Nat.lt_irrefl _)

end

/-- **When the committed position reaches a follower** that has the log of the leader: a
round leaves the higher of the two commit indices if and only if the follower had it. -/
theorem commit_reaches_follower_iff {id : NodeId} {log : List Entry} {seed : Seed} {p : Pair}
    (hf : Facing id log seed p) (hnext : seed.nextIndex = log.length + 1)
    (hlog : log.map Entry.index = List.range' 1 log.length) (hequal : p.got = log)
    (env env' : Env) :
    ∃ req resp p', p.round id env env' = some (req, resp, p') ∧
      (p'.follower.volatile.commitIndex =
          max p.follower.volatile.commitIndex p.leader.volatile.commitIndex ↔
        p.leader.volatile.commitIndex ≤ p.follower.volatile.commitIndex) := by
  obtain ⟨req, resp, p', hround, hcommit⟩ :=
    round_equal hf hnext (consecutive_iff.2 hlog) hequal env env'
  refine ⟨req, resp, p', hround, ?_⟩
  rw [hcommit]
  omega

/-- A heartbeat of a leader that has committed its entry: the follower does not hear of it. -/
theorem commit_reaches_follower_iff_quiet : ∃ req resp p',
    ((Pair.elected 1 [⟨1, 1, [1]⟩] [⟨1, 1, [1]⟩]).committed 1).round (localhost 2114) ⟨0, 150⟩
      ⟨0, 150⟩ = some (req, resp, p') ∧
        (p'.follower.volatile.commitIndex = max 0 1 ↔ 1 ≤ 0) := by
  have hf : Facing (localhost 2114) [⟨1, 1, [1]⟩] ⟨localhost 2114, 2, 0⟩
      ((Pair.elected 1 [⟨1, 1, [1]⟩] [⟨1, 1, [1]⟩]).committed 1) :=
    ⟨rfl, rfl, by decide, rfl, le_rfl⟩
  exact commit_reaches_follower_iff hf rfl rfl rfl ⟨0, 150⟩ ⟨0, 150⟩

/-- The follower does not learn that the entry is committed. -/
theorem commit_not_learnt : ∃ req resp p',
    ((Pair.elected 1 [⟨1, 1, [1]⟩] [⟨1, 1, [1]⟩]).committed 1).round (localhost 2114) ⟨0, 150⟩
      ⟨0, 150⟩ = some (req, resp, p') ∧ resp.success = true ∧
        p'.follower.volatile.commitIndex ≠ max 0 1 :=
  ⟨_, _, _, rfl, rfl, by decide⟩

end Safety
end RaftPlayground
