/-
# Terms fence

Three handlers compare the term of a peer with the node's own before anything else,
and give up on a lower one; the two that answer do so with the higher of the two
terms, which is the node's from then on.  A refused replication request has changed
the term, the vote and the timer by then, and neither the log nor the commit index
(`Fenced`).  So the term of a node grows over every run, whatever it is sent, up to
the election timeout at the end of `u64` (`term_fencing`).
-/

import RaftPlayground.Safety.Conditions
import RaftPlayground.Server.Move

namespace RaftPlayground
namespace Safety

open Protocol Server

/-- The term of a request a peer wants answered. -/
def requestTerm : Input → Option ℕ
  | .msg (.requestVote term _ _ _) | .msg (.appendEntries term _ _ _ _ _) => some term
  | _ => none

/-- The term the handler of a message compares with the node's own. -/
def comparedTerm : Input → Option ℕ
  | .msg (.requestVote term _ _ _) | .msg (.appendEntries term _ _ _ _ _)
  | .msg (.voteReceived _ term _) => some term
  | _ => none

/-- The input is a replication request. -/
def IsEntries : Input → Prop
  | .msg (.appendEntries ..) => True
  | _ => False

/-- **What a turn does about terms.** -/
structure Fenced (t : Step Node Turn) : Prop where
  /-- A request is answered in the higher of the two terms, the node's from then on. -/
  answered : ∀ T, requestTerm t.act.input = some T →
    t.after.persistent.term = max t.before.persistent.term T ∧
      ∃ ok, t.act.effects.reply = some (max t.before.persistent.term T, ok)
  /-- A lower term changes nothing. -/
  stale : ∀ T, comparedTerm t.act.input = some T → T < t.before.persistent.term →
    t.after = t.before
  /-- A request of a lower term is refused. -/
  staleRefused : ∀ T, requestTerm t.act.input = some T → T < t.before.persistent.term →
    t.act.effects.reply = some (t.before.persistent.term, false)
  /-- A refused replication request leaves the log and what is committed. -/
  refused : IsEntries t.act.input → ∀ T, t.act.effects.reply = some (T, false) →
    t.after.persistent.entries = t.before.persistent.entries ∧
      t.after.volatile.commitIndex = t.before.volatile.commitIndex

section

variable {env : Env} {n n' : Node} {i : Input} {eff : Effects}

theorem requestTerm_of_quiet (h : i.Quiet) : requestTerm i = none := by
  unfold requestTerm
  split
  · exact h.elim
  · exact h.elim
  · rfl

/-- No turn lowers the term. -/
theorem term_le_turned (ht : n.Turned env i n' eff) (hfits : TermFits env n i) :
    n.persistent.term ≤ n'.persistent.term := by
  cases ht with
  | candidacy due =>
      have hterm := Node.switchToCandidate_term env (hfits due)
      omega
  | voteGranted le | voteRefused le | entriesUnknown le | entriesEmpty le | entriesStored le =>
      exact le
  | outrun _ lt => exact lt.le
  | _ => exact le_rfl

/-- A request is answered in the higher of the two terms. -/
theorem answered_turned (ht : n.Turned env i n' eff) {T : ℕ} (hi : requestTerm i = some T) :
    n'.persistent.term = max n.persistent.term T ∧
      ∃ ok, eff.reply = some (max n.persistent.term T, ok) := by
  cases ht with
  | idle quiet =>
      rw [requestTerm_of_quiet quiet] at hi
      simp at hi
  | voteStale stale | entriesStale stale =>
      obtain rfl := Option.some.inj hi
      rw [max_eq_left stale.le]
      exact ⟨rfl, _, rfl⟩
  | voteGranted le | voteRefused le | entriesUnknown le | entriesEmpty le | entriesStored le =>
      obtain rfl := Option.some.inj hi
      rw [max_eq_right le]
      exact ⟨rfl, _, rfl⟩
  | voteRepeated eq =>
      obtain rfl := Option.some.inj hi
      rw [← eq, max_self]
      exact ⟨rfl, _, rfl⟩
  | _ => simp [requestTerm] at hi

/-- A message of a lower term changes nothing. -/
theorem stale_turned (ht : n.Turned env i n' eff) {T : ℕ} (hi : comparedTerm i = some T)
    (hlt : T < n.persistent.term) : n' = n := by
  cases ht with
  | idle | voteStale | voteRepeated | entriesStale => rfl
  | voteGranted le | voteRefused le | entriesUnknown le | entriesEmpty le | entriesStored le =>
      obtain rfl := Option.some.inj hi
      omega
  | outrun _ lt =>
      obtain rfl := Option.some.inj hi
      omega
  | counted _ eq | elected _ eq =>
      obtain rfl := Option.some.inj hi
      omega
  | _ => simp [comparedTerm] at hi

/-- A request of a lower term is refused. -/
theorem staleRefused_turned (ht : n.Turned env i n' eff) {T : ℕ} (hi : requestTerm i = some T)
    (hlt : T < n.persistent.term) : eff.reply = some (n.persistent.term, false) := by
  cases ht with
  | idle quiet =>
      rw [requestTerm_of_quiet quiet] at hi
      simp at hi
  | voteStale | entriesStale => rfl
  | voteGranted le | voteRefused le | entriesUnknown le | entriesEmpty le | entriesStored le =>
      obtain rfl := Option.some.inj hi
      omega
  | voteRepeated eq =>
      obtain rfl := Option.some.inj hi
      omega
  | _ => simp [requestTerm] at hi

/-- A refused replication request leaves the log and what is committed. -/
theorem refused_turned (ht : n.Turned env i n' eff) (hi : IsEntries i) {T : ℕ}
    (hreply : eff.reply = some (T, false)) :
    n'.persistent.entries = n.persistent.entries ∧
      n'.volatile.commitIndex = n.volatile.commitIndex := by
  cases ht with
  | idle | entriesStale | entriesUnknown => exact ⟨rfl, rfl⟩
  | entriesEmpty | entriesStored => simp at hreply
  | _ => exact hi.elim

theorem fenced_turned (ht : n.Turned env i n' eff) : Fenced ⟨n, ⟨env, i, eff⟩, n'⟩ where
  answered _ hi := answered_turned ht hi
  stale _ hi hlt := stale_turned ht hi hlt
  staleRefused _ hi hlt := staleRefused_turned ht hi hlt
  refused hi _ hreply := refused_turned ht hi hreply

end

/-- **Term fencing and harmless rejection.**  From any state of a node, and over any
run of messages and ticks without an election timeout at the end of `u64`, the term
does not go down, and every turn is fenced. -/
theorem term_fencing {n₀ n : Node} {ts : List (Step Node Turn)} (hrun : Run Node.next n₀ ts n)
    (hfits : ∀ t ∈ ts, TermFits t.act.env t.before t.act.input) :
    n₀.persistent.term ≤ n.persistent.term ∧
      ∀ t ∈ ts, t.before.persistent.term ≤ t.after.persistent.term ∧ Fenced t := by
  have hturned : ∀ t ∈ ts, t.before.Turned t.act.env t.act.input t.after t.act.effects := by
    intro t ht
    obtain ⟨_, _, _, hnext⟩ := hrun.step_of_mem ht
    exact Node.handle_turned hnext
  constructor
  · refine Run.invariant (fun t => TermFits t.act.env t.before t.act.input)
      (fun _ n => n₀.persistent.term ≤ n.persistent.term) le_rfl ?_ hrun hfits
    intro _ n t n' _ hle hnext hfit
    have hstep := term_le_turned (Node.handle_turned hnext) hfit
    omega
  · intro t ht
    exact ⟨term_le_turned (hturned t ht) (hfits t ht), fenced_turned (hturned t ht)⟩

/-- Two nodes run in the first term. -/
theorem term_fencing_rivals : ∃ ts n,
    NodeRun (localhost 2114) (Config.trio.seeds (localhost 2114)) 0 ts n ∧ 2 ≤ ts.length ∧
      n.persistent.term = 1 ∧ ∀ t ∈ ts, Fenced t := by
  obtain ⟨h, c, hrun, hfits, hlen, hterm⟩ := ClusterRun.exists_of_replay .trio rivals
    (fun h c => (∀ st ∈ h, Cluster.Meets TermFits st) ∧
      2 ≤ (Cluster.turns (localhost 2114) h).length ∧
        (c.nodes (localhost 2114)).persistent.term = 1) (by decide +kernel)
  have hturns := hrun.turns_run (localhost 2114)
  have hfenced := (term_fencing hturns (Cluster.meets_turns hfits _)).2
  exact ⟨_, _, hturns, hlen, hterm, fun t ht => (hfenced t ht).2⟩

end Safety
end RaftPlayground
