/-
# A cluster of nodes

The nodes of a cluster, the RPCs between them in flight, and the client requests
that reach them.  Every member has the others as its seeds.  An RPC is a request
in flight to a peer; handled there, it leaves its reply in flight to the caller,
where the task `Seed::request_vote` or `Seed::send_append_entries` spawned posts
it to the mailbox.  Any message in flight may be delivered next, or lost.  A
failed replication call is reported to its caller, a failed vote call is not.

`Cluster.step` takes the first action the environment chooses; a run of a
cluster is a run of `Cluster.step`, and the calls it makes on one node are a run
of that node.
-/

import RaftPlayground.Server.Node
import Mathlib.Logic.Function.Basic

namespace RaftPlayground
namespace Server

open Protocol

/-- A message in flight between the task of one node and the mailbox of another.
A replication reply carries the end of the batch it answers, kept by the task
that waits for it. -/
inductive Packet
  | voteReq (src dst : NodeId) (req : VoteReq)
  | voteResp (src dst : NodeId) (term : ℕ) (granted : Bool)
  | entriesReq (src dst : NodeId) (req : EntriesReq)
  | entriesResp (src dst : NodeId) (batchEnd : Option ℕ) (resp : Option AppendEntriesResp)
deriving DecidableEq, Repr

namespace Packet

/-- The node a packet comes from. -/
def src : Packet → NodeId
  | voteReq src _ _ | voteResp src _ _ _ | entriesReq src _ _ | entriesResp src _ _ _ => src

/-- The node a packet is delivered to. -/
def dst : Packet → NodeId
  | voteReq _ dst _ | voteResp _ dst _ _ | entriesReq _ dst _ | entriesResp _ dst _ _ => dst

/-- A request names its sender as the candidate or the leader. -/
def Signed : Packet → Prop
  | voteReq src _ req => req.candidateId = src
  | entriesReq src _ req => req.leaderId = src
  | voteResp .. | entriesResp .. => True

/-- The message a packet puts into the mailbox of its destination. -/
def msg : Packet → Msg
  | voteReq _ _ req =>
    .requestVote req.term req.candidateId req.lastLogIndex req.lastLogTerm
  | voteResp src _ term granted => .voteReceived src term granted
  | entriesReq _ _ req =>
    .appendEntries req.term req.leaderId req.prevLogIndex req.prevLogTerm req.leaderCommit
      req.entries
  | entriesResp src _ batchEnd resp => .appendEntriesResp src batchEnd resp

/-- `batch_end_log_index` of a replication request. -/
def batchEnd (req : EntriesReq) : Option ℕ := req.entries.getLast?.map Entry.index

/-- The reply in flight once the packet was handled. -/
def answer (eff : Effects) : Packet → List Packet
  | voteReq src dst _ =>
    match eff.reply with
    | some (term, granted) => [voteResp dst src term granted]
    | none => []
  | entriesReq src dst req =>
    match eff.reply with
    | some (term, success) => [entriesResp dst src (batchEnd req) (some { term, success })]
    | none => []
  | voteResp .. | entriesResp .. => []

theorem mem_answer_voteReq {src dst : NodeId} {req : VoteReq} {eff : Effects} {q : Packet} :
    q ∈ (voteReq src dst req).answer eff ↔
      ∃ term granted, eff.reply = some (term, granted) ∧ q = voteResp dst src term granted := by
  rcases hr : eff.reply with _ | ⟨t, g⟩
  · simp [answer, hr]
  · simp only [answer, hr, List.mem_singleton, Option.some.injEq, Prod.mk.injEq]
    exact ⟨fun h => ⟨t, g, ⟨rfl, rfl⟩, h⟩, fun ⟨_, _, ⟨ht, hg⟩, h⟩ => ht ▸ hg ▸ h⟩

theorem mem_answer_entriesReq {src dst : NodeId} {req : EntriesReq} {eff : Effects} {q : Packet} :
    q ∈ (entriesReq src dst req).answer eff ↔
      ∃ term success, eff.reply = some (term, success) ∧
        q = entriesResp dst src (batchEnd req) (some { term, success }) := by
  rcases hr : eff.reply with _ | ⟨t, s⟩
  · simp [answer, hr]
  · simp only [answer, hr, List.mem_singleton, Option.some.injEq, Prod.mk.injEq]
    exact ⟨fun h => ⟨t, s, ⟨rfl, rfl⟩, h⟩, fun ⟨_, _, ⟨ht, hs⟩, h⟩ => ht ▸ hs ▸ h⟩

/-- The packet asks for a reply. -/
def IsRequest : Packet → Prop
  | voteReq .. | entriesReq .. => True
  | voteResp .. | entriesResp .. => False

/-- A reply asks for none. -/
theorem not_isRequest_of_mem_answer {p q : Packet} {eff : Effects} (hq : q ∈ p.answer eff) :
    ¬ q.IsRequest := by
  cases p with
  | voteReq =>
      obtain ⟨_, _, _, rfl⟩ := mem_answer_voteReq.1 hq
      exact id
  | entriesReq =>
      obtain ⟨_, _, _, rfl⟩ := mem_answer_entriesReq.1 hq
      exact id
  | voteResp | entriesResp => simp [answer] at hq

/-- What the caller learns when the RPC of a packet fails. -/
def failure : Packet → List Packet
  | entriesReq src dst req => [entriesResp dst src (batchEnd req) none]
  | entriesResp src dst batchEnd _ => [entriesResp src dst batchEnd none]
  | voteReq .. | voteResp .. => []

end Packet

/-- The requests a call of the node `id` spawns. -/
def Effects.packets (id : NodeId) (eff : Effects) : List Packet :=
  eff.voteReqs.map (fun x => .voteReq id x.1 x.2) ++
    eff.entriesReqs.map fun x => .entriesReq id x.1 x.2

theorem Effects.mem_packets {id : NodeId} {eff : Effects} {p : Packet} :
    p ∈ eff.packets id ↔
      (∃ x ∈ eff.voteReqs, p = .voteReq id x.1 x.2) ∨
        ∃ x ∈ eff.entriesReqs, p = .entriesReq id x.1 x.2 := by
  simp only [packets, List.mem_append, List.mem_map, eq_comm]

/-- A request of a client. -/
inductive ClientReq
  | append (streamId : String) (events : List Bytes)
  | read (streamId : String)
  | status
deriving DecidableEq, Repr

/-- The message of a client request; an append waits on the channel `resp`. -/
def ClientReq.msg (resp : Sender) : ClientReq → Msg
  | append streamId events => .appendStream streamId events resp
  | read streamId => .readStream streamId
  | status => .status

/-- The members of a cluster, each the peer of all the others. -/
structure Config where
  members : List NodeId
  nodup : members.Nodup
  two_le : 2 ≤ members.length

/-- Nodes on the local host, one for each port. -/
def localhost (port : ℕ) : NodeId := ⟨"127.0.0.1", port⟩

/-- Three nodes on the local host. -/
def Config.trio : Config where
  members := [2113, 2114, 2115].map localhost
  nodup := by decide
  two_le := by decide

/-- Five nodes on the local host. -/
def Config.quintet : Config where
  members := [2113, 2114, 2115, 2116, 2117].map localhost
  nodup := by decide
  two_le := by decide

/-- The seed list of a member: the other members. -/
def Config.seeds (cfg : Config) (id : NodeId) : List Seed :=
  (cfg.members.filter (· ≠ id)).map Seed.new

/-- The state of a cluster: its nodes, the packets in flight, the clock, and the
number of client requests so far, which numbers their channels. -/
structure Cluster where
  nodes : NodeId → Node
  net : List Packet
  clock : ℕ
  requests : ℕ

/-- What may happen next. -/
inductive Action
  | tick (env : Env) (id : NodeId)
  | client (env : Env) (id : NodeId) (req : ClientReq)
  | deliver (env : Env) (p : Packet)
  | lose (p : Packet)
  | fail (p : Packet)
deriving DecidableEq, Repr

/-- The first election of the trio: the node on port 2113 runs, the node on port
2115 votes for it, and its vote arrives. -/
def firstElection : List Action :=
  let A := localhost 2113
  let C := localhost 2115
  [.tick ⟨0, 150⟩ A, .deliver ⟨1, 150⟩ (.voteReq A C ⟨A, 1, 0, 0⟩),
    .deliver ⟨2, 150⟩ (.voteResp C A 1 true)]

/-- Two nodes of the trio run in the first term.  The node on port 2113 wins with
the vote of the third, then answers the request of the other. -/
def rivals : List Action :=
  let A := localhost 2113
  let B := localhost 2114
  let C := localhost 2115
  [.tick ⟨0, 150⟩ A, .tick ⟨1, 150⟩ B,
    .deliver ⟨2, 150⟩ (.voteReq A C ⟨A, 1, 0, 0⟩), .deliver ⟨3, 150⟩ (.voteResp C A 1 true),
    .deliver ⟨4, 150⟩ (.voteReq B A ⟨B, 1, 0, 0⟩), .deliver ⟨5, 150⟩ (.voteResp A B 1 true)]

/-- The batch of two events a client appends to the leader of the first term. -/
def firstBatch : EntriesReq where
  leaderId := localhost 2113
  term := 1
  prevLogIndex := 0
  prevLogTerm := 1
  leaderCommit := 0
  entries := [⟨1, 1, putEvent "s" [1]⟩, ⟨2, 1, putEvent "s" [2]⟩]

/-- The first election, and a request to append that both followers store. -/
def replication : List Action :=
  let A := localhost 2113
  let B := localhost 2114
  let C := localhost 2115
  firstElection ++
    [.client ⟨3, 150⟩ A (.append "s" [[1], [2]]), .tick ⟨4, 150⟩ A,
      .deliver ⟨5, 150⟩ (.entriesReq A B firstBatch),
      .deliver ⟨6, 150⟩ (.entriesReq A C firstBatch),
      .deliver ⟨7, 150⟩ (.entriesResp B A (some 2) (some ⟨1, true⟩)),
      .deliver ⟨8, 150⟩ (.entriesResp C A (some 2) (some ⟨1, true⟩))]

/-- The batch of a third event, behind the two of the first request. -/
def secondBatch : EntriesReq where
  leaderId := localhost 2113
  term := 1
  prevLogIndex := 2
  prevLogTerm := 1
  leaderCommit := 2
  entries := [⟨3, 1, putEvent "s" [3]⟩]

/-- After a first request is replicated, the leader sends the batch of a second one
on two ticks before an answer, and a follower handles both. -/
def resent : List Action :=
  let A := localhost 2113
  let B := localhost 2114
  replication ++
    [.client ⟨9, 150⟩ A (.append "s" [[3]]), .tick ⟨10, 150⟩ A, .tick ⟨11, 150⟩ A,
      .deliver ⟨12, 150⟩ (.entriesReq A B secondBatch),
      .deliver ⟨13, 150⟩ (.entriesReq A B secondBatch)]

/-- A call of a handler: the node, what it reads from outside, the input. -/
structure Call where
  id : NodeId
  env : Env
  input : Input
deriving DecidableEq, Repr

namespace Cluster

/-- A cluster whose member `id` starts at the instant `started id`. -/
def init (cfg : Config) (started : NodeId → ℕ) : Cluster :=
  { nodes := fun id => Node.start id (cfg.seeds id) (started id)
    net := []
    clock := 0
    requests := 0 }

/-- The call an action makes. -/
def callOf (c : Cluster) : Action → Option Call
  | .tick env id => some { id, env, input := .tick }
  | .client env id req => some { id, env, input := .msg (req.msg c.requests) }
  | .deliver env p => some { id := p.dst, env, input := .msg p.msg }
  | .lose _ | .fail _ => none

/-- The clock does not go back, and a drawn timeout is in the range of the node. -/
def Admits (c : Cluster) (id : NodeId) (env : Env) : Prop :=
  c.clock ≤ env.now ∧
    (c.nodes id).volatile.electionTimeoutRange.low ≤ env.timeout ∧
      env.timeout < (c.nodes id).volatile.electionTimeoutRange.high

instance (c : Cluster) (id : NodeId) (env : Env) : Decidable (c.Admits id env) :=
  inferInstanceAs (Decidable (_ ∧ _ ∧ _))

/-- The cluster after the call, with `net` in flight beside what the call adds. -/
def call (c : Cluster) (net : List Packet) (answer : Effects → List Packet) (k : Call) :
    Option Cluster := do
  let (n, eff) ← (c.nodes k.id).handle k.env k.input
  some
    { nodes := Function.update c.nodes k.id n
      net := net ++ answer eff ++ eff.packets k.id
      clock := k.env.now
      requests := c.requests }

/-- One step of a cluster; `none` where the action is not possible. -/
def step (cfg : Config) (c : Cluster) : Action → Option Cluster
  | .tick env id =>
    if id ∈ cfg.members ∧ c.Admits id env then
      c.call c.net (fun _ => []) { id, env, input := .tick }
    else none
  | .client env id req =>
    if id ∈ cfg.members ∧ c.Admits id env then do
      let c' ← c.call c.net (fun _ => []) { id, env, input := .msg (req.msg c.requests) }
      some { c' with requests := c.requests + 1 }
    else none
  | .deliver env p =>
    if p ∈ c.net ∧ c.Admits p.dst env then
      c.call (c.net.erase p) (fun eff => p.answer eff) { id := p.dst, env, input := .msg p.msg }
    else none
  | .lose p => if p ∈ c.net then some { c with net := c.net.erase p } else none
  | .fail p =>
    if p ∈ c.net then some { c with net := c.net.erase p ++ p.failure } else none

/-- The action `a` takes the cluster `c` to `c'`. -/
def next (cfg : Config) (c : Cluster) (a : Action) (c' : Cluster) : Prop :=
  c.step cfg a = some c'

end Cluster

/-- The runs of a cluster. -/
abbrev ClusterRun (cfg : Config) (started : NodeId → ℕ) :
    List (Step Cluster Action) → Cluster → Prop :=
  Run (Cluster.next cfg) (Cluster.init cfg started)

/-- The states a run of a cluster went through. -/
abbrev ClusterVisited (cfg : Config) (started : NodeId → ℕ) :
    List (Step Cluster Action) → Cluster → Prop :=
  Visited (Cluster.init cfg started)

/-- A run of a cluster that starts at the instant `0`, by evaluation. -/
theorem ClusterRun.exists_of_replay (cfg : Config) (as : List Action)
    (P : List (Step Cluster Action) → Cluster → Prop) [∀ h c, Decidable (P h c)]
    (hcheck : (replay (Cluster.step cfg) [] (Cluster.init cfg fun _ => 0) as).any
      (fun x => decide (P x.1 x.2)) = true) :
    ∃ h c, ClusterRun cfg (fun _ => 0) h c ∧ P h c :=
  Run.exists_of_replay as P hcheck

end Server
end RaftPlayground
