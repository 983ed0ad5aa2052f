/-
# One round between a leader and a follower

What happens between two nodes while nothing is lost and nobody else speaks: the
leader sends its replication request to one peer, the peer handles it, and the leader
handles the answer.  The request carries the position before the leader's `next_index`
for the peer, so a round probes a position of the log, and `Facing.round` says how the
probe can end.
-/

import RaftPlayground.Server.Log
import RaftPlayground.Server.Cluster
import RaftPlayground.Server.Turn

namespace RaftPlayground
namespace Server

open Protocol

/-- A leader and one of its peers. -/
structure Pair where
  leader : Node
  follower : Node
deriving DecidableEq

/-- The log of the follower. -/
def Pair.got (p : Pair) : List Entry := p.follower.persistent.entries.inner

/-- What the two nodes read from outside in a round, and what they send. -/
structure Exchange where
  leaderEnv : Env
  followerEnv : Env
  req : EntriesReq
  resp : AppendEntriesResp
deriving DecidableEq

/-- `send_append_entries`, `on_append_entries` and `on_append_entries_resp`, one after the
other, for the peer `id`. -/
def Pair.round (id : NodeId) (leaderEnv followerEnv : Env) (p : Pair) :
    Option (EntriesReq × AppendEntriesResp × Pair) := do
  let (leader, reqs) := p.leader.sendAppendEntries leaderEnv
  let (_, req) ← reqs.find? fun x => x.1 = id
  let (follower, term, success) ←
    p.follower.onAppendEntries followerEnv req.term req.leaderId req.prevLogIndex
      req.prevLogTerm req.leaderCommit req.entries
  let (v, _) ←
    Node.onAppendEntriesResp leader.volatile id (Packet.batchEnd req) (some { term, success })
  some
    (req, { term, success },
      { leader := { leader with volatile := v }
        follower := follower })

/-- The exchange takes the pair `p` to `p'`. -/
def Pair.next (id : NodeId) (p : Pair) (x : Exchange) (p' : Pair) : Prop :=
  p.round id x.leaderEnv x.followerEnv = some (x.req, x.resp, p')

/-- Nothing but what the nodes read from outside decides a round. -/
theorem Pair.next_unique {id : NodeId} {p p' p'' : Pair} {x x' : Exchange}
    (h : p.next id x p') (h' : p.next id x' p'') (hleader : x'.leaderEnv = x.leaderEnv)
    (hfollower : x'.followerEnv = x.followerEnv) : x' = x ∧ p'' = p' := by
  rw [Pair.next, hleader, hfollower, h] at h'
  obtain ⟨hreq, hrest⟩ := Prod.mk.inj (Option.some.inj h')
  obtain ⟨hresp, hpair⟩ := Prod.mk.inj hrest
  obtain ⟨_, _, _, _⟩ := x
  obtain ⟨_, _, _, _⟩ := x'
  exact ⟨Exchange.mk.injEq .. ▸ ⟨hleader, hfollower, hreq.symm, hresp.symm⟩, hpair.symm⟩

/-- The answers of the rounds, the latest first. -/
def answers (h : List (Step Pair Exchange)) : List Bool := h.map fun st => st.act.resp.success

/-- Rounds one after the other, with no other messages. -/
abbrev RoundRun (id : NodeId) : Pair → List (Step Pair Exchange) → Pair → Prop :=
  Run (Pair.next id)

/-- What a follower answers to a leader whose term is not below its own. -/
inductive Replied (n : Node) (term prev prevTerm : ℕ) (es : List Entry) (n' : Node) :
    Bool → Prop
  | refused (unknown : n.persistent.entries.containsLog prev prevTerm = false)
      (entries : n'.persistent.entries = n.persistent.entries) :
      Replied n term prev prevTerm es n' false
  | heartbeat (known : n.persistent.entries.containsLog prev prevTerm = true) (empty : es = [])
      (entries : n'.persistent.entries = n.persistent.entries)
      (commit : n'.volatile.commitIndex = n.volatile.commitIndex) :
      Replied n term prev prevTerm es n' true
  | stored (known : n.persistent.entries.containsLog prev prevTerm = true) (more : es ≠ [])
      (store : (Node.truncated n.persistent.entries term prev prevTerm).append es =
        some n'.persistent.entries) :
      Replied n term prev prevTerm es n' true

/-- A follower answers in the term of the leader, and adopts it. -/
theorem onAppendEntries_replied (env : Env) {n : Node} {term : ℕ} (id : NodeId)
    (prev prevTerm commit : ℕ) (es : List Entry) (hle : n.persistent.term ≤ term) :
    ∃ n' ok, n.onAppendEntries env term id prev prevTerm commit es = some (n', term, ok) ∧
      n'.persistent.term = term ∧ Replied n term prev prevTerm es n' ok := by
  have hsome := Node.onAppendEntries_isSome env n term id prev prevTerm commit es
  obtain ⟨⟨n', term', ok⟩, hn'⟩ := Option.isSome_iff_exists.1 hsome
  rw [hn']
  cases Node.onAppendEntries_turned hn' with
  | idle quiet => exact quiet.elim
  | entriesStale stale => exact absurd hle (not_le.2 stale)
  | entriesUnknown _ unknown => exact ⟨_, _, rfl, rfl, .refused unknown rfl⟩
  | entriesEmpty _ known => exact ⟨_, _, rfl, rfl, .heartbeat known rfl rfl rfl⟩
  | entriesStored _ known end_ store =>
      refine ⟨_, _, rfl, rfl, .stored known ?_ store⟩
      rintro rfl
      simp at end_

/-- Two nodes in one term, a leader and a follower with their logs, when the leader has
just been elected. -/
def Pair.elected (term : ℕ) (log got : List Entry) : Pair where
  leader :=
    { persistent := ⟨default, ⟨log, log.length, tailTerm 0 log⟩, term⟩
      volatile :=
        { Volatile.new (localhost 2113) [⟨localhost 2114, log.length + 1, 0⟩] 0 with
          status := .leader } }
  follower :=
    { persistent := ⟨default, ⟨got, got.length, tailTerm 0 got⟩, term⟩
      volatile := Volatile.new (localhost 2114) [Seed.new (localhost 2113)] 0 }

/-- The pair when the leader has committed the log up to the index. -/
def Pair.committed (p : Pair) (index : ℕ) : Pair :=
  { p with
    leader :=
      { p.leader with volatile := { p.leader.volatile with commitIndex := index } } }

/-! ### The leader's side of an answer -/

section

variable {v : Volatile} {seed : Seed}

/-- A refusal moves the probe down. -/
theorem onAppendEntriesResp_refused (hlead : v.status = .leader) (hseed : seed ∈ v.seeds.inner)
    (batchEnd : Option ℕ) (term : ℕ) :
    ∃ v' answers, Node.onAppendEntriesResp v seed.id batchEnd (some ⟨term, false⟩) =
      some (v', answers) ∧ v'.status = .leader ∧
        { seed with nextIndex := seed.nextIndex - 1 } ∈ v'.seeds.inner := by
  obtain ⟨seeds, hfound, hmem⟩ := Seeds.nodeMut_of_mem hseed
    (fun seed => { seed with nextIndex := seed.nextIndex - 1 }) fun _ => rfl
  refine ⟨{ v with seeds := seeds }, [], ?_, hlead, hmem⟩
  simp [Node.onAppendEntriesResp, hlead, hfound]

/-- An accepted heartbeat changes nothing. -/
theorem onAppendEntriesResp_heartbeat (hlead : v.status = .leader) (id : NodeId) (term : ℕ) :
    Node.onAppendEntriesResp v id none (some ⟨term, true⟩) = some (v, []) := by
  simp [Node.onAppendEntriesResp, hlead]

/-- An accepted batch moves both positions to its end. -/
theorem onAppendEntriesResp_stored (hlead : v.status = .leader) (hseed : seed ∈ v.seeds.inner)
    (batchEnd term : ℕ) :
    ∃ v' answers, Node.onAppendEntriesResp v seed.id (some batchEnd) (some ⟨term, true⟩) =
      some (v', answers) ∧ v'.status = .leader ∧
        { seed with matchIndex := batchEnd, nextIndex := addU64 batchEnd 1 } ∈
          v'.seeds.inner := by
  obtain ⟨seeds, hfound, hmem⟩ := Seeds.nodeMut_of_mem hseed
    (fun seed => { seed with matchIndex := batchEnd, nextIndex := addU64 batchEnd 1 })
    fun _ => rfl
  have hleads : ¬ v.status ≠ .leader := not_not.2 hlead
  simp only [Node.onAppendEntriesResp, if_neg hleads, if_true, hfound, Option.bind_eq_bind,
    Option.bind_some]
  exact ⟨_, _, rfl, hlead, hmem⟩

end

/-! ### The round -/

/-- The leader has the log, and `seed` for the peer, whose term is not above its own. -/
structure Facing (id : NodeId) (log : List Entry) (seed : Seed) (p : Pair) : Prop where
  lead : p.leader.volatile.status = .leader
  log : p.leader.persistent.entries.inner = log
  mem : seed ∈ p.leader.volatile.seeds.inner
  id_eq : seed.id = id
  term : p.follower.persistent.term ≤ p.leader.persistent.term

/-- The request that probes the position `k` of the log. -/
def Pair.probe (p : Pair) (log : List Entry) (k : ℕ) : EntriesReq where
  leaderId := p.leader.volatile.seeds.nodeId
  term := p.leader.persistent.term
  prevLogIndex := k
  prevLogTerm := tailTerm 1 (log.take k)
  leaderCommit := p.leader.volatile.commitIndex
  entries := (log.drop k).take 500

/-- The ways a probe of the position `k` ends. -/
inductive Probed (id : NodeId) (log : List Entry) (seed : Seed) (k : ℕ) (p : Pair) :
    Bool → Pair → Prop
  | refused {p'}
      (unknown : p.follower.persistent.entries.containsLog k (tailTerm 1 (log.take k)) = false)
      (facing : Facing id log { seed with nextIndex := k } p')
      (entries : p'.follower.persistent.entries = p.follower.persistent.entries) :
      Probed id log seed k p false p'
  | heartbeat {p'}
      (known : p.follower.persistent.entries.containsLog k (tailTerm 1 (log.take k)) = true)
      (whole : k = log.length) (facing : Facing id log seed p')
      (entries : p'.follower.persistent.entries = p.follower.persistent.entries)
      (commit : p'.follower.volatile.commitIndex = p.follower.volatile.commitIndex) :
      Probed id log seed k p true p'
  | stored {p' batchEnd}
      (known : p.follower.persistent.entries.containsLog k (tailTerm 1 (log.take k)) = true)
      (more : k < log.length) (end_ : batchEnd = min log.length (k + 500))
      (facing : Facing id log
        { seed with matchIndex := batchEnd, nextIndex := addU64 batchEnd 1 } p')
      (store : (Node.truncated p.follower.persistent.entries p.leader.persistent.term k
        (tailTerm 1 (log.take k))).append ((log.drop k).take 500) =
          some p'.follower.persistent.entries) :
      Probed id log seed k p true p'

section

variable {id : NodeId} {log : List Entry} {seed : Seed} {k : ℕ} {p : Pair}

/-- The request a leader sends the peer. -/
theorem Facing.request (hf : Facing id log seed p) (hlog : Consecutive 0 log) (hk : k ≤ log.length)
    (hnext : seed.nextIndex = k + 1) (env : Env) :
    (p.leader.sendAppendEntries env).2.find? (fun x => x.1 = id) = some (id, p.probe log k) := by
  have hprev : p.leader.persistent.entries.getPreviousEntry (k + 1) =
      (k, tailTerm 1 (log.take k)) := by
    have hloop := hlog.getPreviousEntryLoop_eq hk 1
    rw [Nat.zero_add] at hloop
    rw [Entries.getPreviousEntry, hf.log, hloop]
  have hread : p.leader.persistent.entries.readEntriesFrom k 500 = (log.drop k).take 500 := by
    have hloop : Entries.readEntriesLoop (0 + k) 500 log 0 = _ :=
      hlog.readEntriesLoop (by omega)
    rw [Entries.readEntriesFrom, hf.log, ← hloop, Nat.zero_add]
  rw [Node.sendAppendEntries, ← hf.id_eq, Seeds.find_sendAppendEntries hf.mem,
    Seeds.appendEntriesTo, hnext, hprev]
  dsimp only
  rw [hread]
  rfl

/-- **One round.**  A leader whose `next_index` for the peer is the one after a position
of its log probes that position. -/
theorem Facing.round (hf : Facing id log seed p) (hlog : Consecutive 0 log)
    (hk : k ≤ log.length) (hnext : seed.nextIndex = k + 1) (env env' : Env) :
    ∃ ok p', p.round id env env' =
      some (p.probe log k, ⟨p.leader.persistent.term, ok⟩, p') ∧ Probed id log seed k p ok p' := by
  obtain ⟨f, ok, hfollower, hterm, hreplied⟩ := onAppendEntries_replied env'
    p.leader.volatile.seeds.nodeId k (tailTerm 1 (log.take k)) p.leader.volatile.commitIndex
    ((log.drop k).take 500) hf.term
  have hlead : (p.leader.sendAppendEntries env).1.volatile.status = .leader := hf.lead
  have hmem : seed ∈ (p.leader.sendAppendEntries env).1.volatile.seeds.inner := hf.mem
  -- the pair after the round, for the leader's side of the answer
  have hround : ∀ v answers, Node.onAppendEntriesResp (p.leader.sendAppendEntries env).1.volatile
      seed.id (Packet.batchEnd (p.probe log k)) (some ⟨p.leader.persistent.term, ok⟩) =
        some (v, answers) →
      p.round id env env' = some (p.probe log k, ⟨p.leader.persistent.term, ok⟩,
        ⟨{ (p.leader.sendAppendEntries env).1 with volatile := v }, f⟩) := by
    intro v answers hresp
    rw [hf.id_eq] at hresp
    have hanswer : p.follower.onAppendEntries env' (p.probe log k).term (p.probe log k).leaderId
        (p.probe log k).prevLogIndex (p.probe log k).prevLogTerm (p.probe log k).leaderCommit
          (p.probe log k).entries = some (f, p.leader.persistent.term, ok) := hfollower
    simp only [Pair.round, hf.request hlog hk hnext, Option.bind_eq_bind, Option.bind_some,
      hanswer, hresp]
  have hfacing : ∀ (v : Volatile) (s : Seed), v.status = .leader → s ∈ v.seeds.inner →
      s.id = id →
        Facing id log s ⟨{ (p.leader.sendAppendEntries env).1 with volatile := v }, f⟩ :=
    fun v s hlead hmem hid => ⟨hlead, hf.log, hmem, hid, hterm.le⟩
  cases hreplied with
  | refused unknown entries =>
      obtain ⟨v, answers, hresp, hlead', hmem'⟩ := onAppendEntriesResp_refused hlead hmem
        (Packet.batchEnd (p.probe log k)) p.leader.persistent.term
      rw [hnext] at hmem'
      exact ⟨false, _, hround v answers hresp,
        .refused unknown (hfacing v _ hlead' hmem' hf.id_eq) entries⟩
  | heartbeat known empty entries commit =>
      have hend : Packet.batchEnd (p.probe log k) = none := by
        show ((log.drop k).take 500).getLast?.map Entry.index = none
        rw [empty]
        rfl
      have hresp := onAppendEntriesResp_heartbeat hlead seed.id p.leader.persistent.term
      rw [← hend] at hresp
      have hwhole : k = log.length := by
        simp only [List.take_eq_nil_iff, List.drop_eq_nil_iff] at empty
        omega
      exact ⟨true, _, hround _ _ hresp,
        .heartbeat known hwhole (hfacing _ _ hlead hmem hf.id_eq) entries commit⟩
  | stored known more store =>
      have hbatch : Consecutive k ((log.drop k).take 500) := hlog.batch hk 500
      have hend : Packet.batchEnd (p.probe log k) =
          some (k + ((log.drop k).take 500).length) := hbatch.getLast? more
      obtain ⟨v, answers, hresp, hlead', hmem'⟩ := onAppendEntriesResp_stored hlead hmem
        (k + ((log.drop k).take 500).length) p.leader.persistent.term
      rw [← hend] at hresp
      have hmore : k < log.length := by
        by_contra hall
        exact more (by rw [List.drop_eq_nil_of_le (not_lt.1 hall), List.take_nil])
      have hlen : k + ((log.drop k).take 500).length = min log.length (k + 500) := by
        rw [List.length_take, List.length_drop]
        omega
      exact ⟨true, _, hround v answers hresp,
        .stored known hmore hlen (hfacing v _ hlead' hmem' hf.id_eq) store⟩

end

end Server
end RaftPlayground
