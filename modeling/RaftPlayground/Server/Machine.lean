/-
# The state machine of a node

`raft-server/src/machine.rs`: the persistent and the volatile state, the
handlers of the messages, the tick, and the dispatch of `state_machine`.

A handler takes the state and returns the new one.  What it hands to the runtime
comes next to it: the RPCs it spawns, the answers it sends to waiting clients,
and the value it replies with.  `none` is a panic of the node's thread.  The two
sources a handler reads outside its arguments, `Instant::now()` and the random
number generator, are the fields of an `Env`, one for each call.  Instants and
durations count nanoseconds.
-/

import RaftPlayground.Server.Seed
import Mathlib.Data.Finset.Card

namespace RaftPlayground
namespace Server

/-- What one handler call reads from outside: the clock and the value
`gen_range` draws, in milliseconds. -/
structure Env where
  now : ℕ
  timeout : ℕ
deriving DecidableEq, Repr

/-- `Duration::from_millis`. -/
def fromMillis (ms : ℕ) : ℕ := ms * 1000000

/-- The sending half of the `oneshot` channel an append request waits on. -/
abbrev Sender := ℕ

/-- `AppendEntriesResp`, the answer of a peer. -/
structure AppendEntriesResp where
  term : ℕ
  success : Bool
deriving DecidableEq, Repr

/-- `Status`. -/
inductive Status
  | follower
  | candidate
  | leader
deriving DecidableEq, Repr

/-- `StatusResp`. -/
structure StatusResp where
  id : NodeId
  status : Status
  leaderId : Option NodeId
  term : ℕ
  logIndex : ℕ
  global : ℕ
deriving DecidableEq, Repr

/-- `Msg`, with the reply channels left out where the loop replies itself.  A
failed RPC is `resp = none`. -/
inductive Msg
  | requestVote (term : ℕ) (candidateId : NodeId) (lastLogIndex lastLogTerm : ℕ)
  | appendEntries (term : ℕ) (leaderId : NodeId) (prevLogIndex prevLogTerm leaderCommit : ℕ)
      (entries : List Entry)
  | voteReceived (nodeId : NodeId) (term : ℕ) (granted : Bool)
  | appendEntriesResp (nodeId : NodeId) (batchEndLogIndex : Option ℕ)
      (resp : Option AppendEntriesResp)
  | appendStream (streamId : String) (events : List Bytes) (resp : Sender)
  | readStream (streamId : String)
  | status
deriving DecidableEq, Repr

/-- `ElectionTimeoutRange`. -/
structure ElectionTimeoutRange where
  low : ℕ
  high : ℕ
  duration : ℕ
deriving DecidableEq, Repr

/-- `ElectionTimeoutRange::default`. -/
instance : Inhabited ElectionTimeoutRange := ⟨{ low := 150, high := 300, duration := 0 }⟩

/-- `ElectionTimeoutRange::pick_timeout_value`, with the value drawn. -/
def ElectionTimeoutRange.pickTimeoutValue (r : ElectionTimeoutRange) (timeout : ℕ) :
    ElectionTimeoutRange :=
  { r with duration := fromMillis timeout }

/-- `Persistent`. -/
structure Persistent where
  id : NodeId
  entries : Entries
  term : ℕ
deriving DecidableEq, Repr

/-- `Persistent::load`.  The id is the default one, not the id of the node. -/
def Persistent.load : Persistent := { id := default, entries := default, term := 0 }

/-- `Volatile`. -/
structure Volatile where
  id : NodeId
  leader : Option NodeId
  seeds : Seeds
  status : Status
  votedFor : Option NodeId
  electionTimeout : ℕ
  electionTimeoutRange : ElectionTimeoutRange
  tally : Finset NodeId
  heartbeatTimeout : ℕ
  inflights : List (ℕ × Sender)
  lastApplied : ℕ
  commitIndex : ℕ
deriving DecidableEq

namespace Volatile

/-- `Volatile::new`. -/
def new (id : NodeId) (seeds : List Seed) (now : ℕ) : Volatile :=
  { id
    seeds := Seeds.new id seeds
    status := if seeds.isEmpty then .leader else .follower
    leader := none
    votedFor := none
    electionTimeout := now
    electionTimeoutRange := default
    tally := ∅
    heartbeatTimeout := now
    inflights := []
    lastApplied := 0
    commitIndex := 0 }

/-- `Volatile::cluster_size`. -/
def clusterSize (v : Volatile) : ℕ := 1 + v.seeds.len

/-- `Volatile::have_we_reached_quorum`. -/
def haveWeReachedQuorum (v : Volatile) : Bool := decide (1 + v.tally.card > v.clusterSize / 2)

/-- `Volatile::reset`, with the answers the drained senders get. -/
def reset (v : Volatile) (p : Persistent) : Volatile × List (Sender × Option ℕ) :=
  ({ v with
      votedFor := none
      tally := ∅
      commitIndex := 0
      lastApplied := 0
      seeds := v.seeds.reset p.entries.lastIndex
      inflights := [] },
    v.inflights.map fun x => (x.2, none))

/-- `Volatile::election_timeout`: has the picked duration elapsed? -/
def electionTimeoutElapsed (v : Volatile) (now : ℕ) : Bool :=
  decide (now - v.electionTimeout ≥ v.electionTimeoutRange.duration)

end Volatile

/-- The state of a node: both halves. -/
structure Node where
  persistent : Persistent
  volatile : Volatile
deriving DecidableEq

/-- What a call hands to the runtime: RPCs to peers, answers to append requests,
and the reply to the caller. -/
structure Effects where
  voteReqs : List (NodeId × VoteReq) := []
  entriesReqs : List (NodeId × EntriesReq) := []
  answers : List (Sender × Option ℕ) := []
  reply : Option (ℕ × Bool) := none
  events : Option (List RecordedEvent) := none
  status : Option StatusResp := none
deriving DecidableEq

namespace Node

/-- The state `state_machine` starts its loop with. -/
def start (id : NodeId) (seeds : List Seed) (now : ℕ) : Node :=
  { persistent := Persistent.load, volatile := Volatile.new id seeds now }

/-- `on_status`. -/
def onStatus (n : Node) : StatusResp :=
  { id := n.volatile.id
    status := n.volatile.status
    leaderId := n.volatile.leader
    term := n.persistent.term
    logIndex := n.volatile.commitIndex
    global := 0 }

/-- `send_append_entries`. -/
def sendAppendEntries (env : Env) (n : Node) : Node × List (NodeId × EntriesReq) :=
  ({ n with volatile := { n.volatile with heartbeatTimeout := env.now } },
    n.volatile.seeds.sendAppendEntries n.persistent.entries n.persistent.term
      n.volatile.commitIndex)

/-- `switch_to_leader`. -/
def switchToLeader (env : Env) (n : Node) : Node × Effects :=
  let v := { n.volatile with status := .leader, leader := some n.volatile.id }
  let (v, answers) := v.reset n.persistent
  let (n, entriesReqs) := sendAppendEntries env { n with volatile := v }
  (n, { answers, entriesReqs })

section

variable (env : Env) (n : Node)

@[simp] theorem switchToLeader_persistent : (n.switchToLeader env).1.persistent = n.persistent :=
  rfl

@[simp] theorem switchToLeader_status : (n.switchToLeader env).1.volatile.status = .leader := rfl

@[simp] theorem switchToLeader_tally : (n.switchToLeader env).1.volatile.tally = ∅ := rfl

@[simp] theorem switchToLeader_seeds :
    (n.switchToLeader env).1.volatile.seeds =
      n.volatile.seeds.reset n.persistent.entries.lastIndex := rfl

@[simp] theorem switchToLeader_inflights : (n.switchToLeader env).1.volatile.inflights = [] := rfl

@[simp] theorem switchToLeader_commitIndex : (n.switchToLeader env).1.volatile.commitIndex = 0 :=
  rfl

@[simp] theorem switchToLeader_voteReqs : (n.switchToLeader env).2.voteReqs = [] := rfl

@[simp] theorem switchToLeader_entriesReqs :
    (n.switchToLeader env).2.entriesReqs =
      (n.volatile.seeds.reset n.persistent.entries.lastIndex).sendAppendEntries
        n.persistent.entries n.persistent.term 0 := rfl

@[simp] theorem switchToLeader_answers :
    (n.switchToLeader env).2.answers = n.volatile.inflights.map fun x => (x.2, none) := rfl

end

/-- `switch_to_candidate`. -/
def switchToCandidate (env : Env) (n : Node) : Node × Effects :=
  let p := { n.persistent with term := addU64 n.persistent.term 1 }
  let v :=
    { n.volatile with
      status := .candidate
      leader := none
      votedFor := some p.id
      electionTimeoutRange := n.volatile.electionTimeoutRange.pickTimeoutValue env.timeout }
  ({ persistent := p, volatile := v }, { voteReqs := v.seeds.requestVote p.entries p.term })

theorem switchToCandidate_term (env : Env) {n : Node} (h : n.persistent.term + 1 < 2 ^ 64) :
    (n.switchToCandidate env).1.persistent.term = n.persistent.term + 1 :=
  addU64_of_lt h

@[simp] theorem switchToCandidate_status (env : Env) (n : Node) :
    (n.switchToCandidate env).1.volatile.status = .candidate := rfl

@[simp] theorem switchToCandidate_entriesReqs (env : Env) (n : Node) :
    (n.switchToCandidate env).2.entriesReqs = [] := rfl

/-- `on_tick`. -/
def onTick (env : Env) (n : Node) : Node × Effects :=
  if n.volatile.seeds.isEmpty then (n, {})
  else if n.volatile.status = .leader then
    let (n, entriesReqs) := sendAppendEntries env n
    (n, { entriesReqs })
  else if n.volatile.electionTimeoutElapsed env.now then switchToCandidate env n
  else (n, {})

/-- `on_request_vote`. -/
def onRequestVote (n : Node) (term : ℕ) (candidateId : NodeId) (lastLogIndex lastLogTerm : ℕ) :
    Node × (ℕ × Bool) :=
  if n.persistent.term > term then (n, (n.persistent.term, false))
  else if n.persistent.term < term ∨ n.volatile.votedFor = none then
    let p := { n.persistent with term := term }
    if p.entries.lastIndex ≤ lastLogIndex ∧ p.entries.lastTerm ≤ lastLogTerm then
      let v := { n.volatile with votedFor := some candidateId, status := .follower }
      ({ persistent := p, volatile := v }, (p.term, true))
    else ({ n with persistent := p }, (p.term, false))
  else
    (n,
      (n.persistent.term,
        decide (n.volatile.votedFor = some candidateId ∧
          n.persistent.entries.lastIndex ≤ lastLogIndex ∧
            n.persistent.entries.lastTerm ≤ lastLogTerm)))

/-- `on_vote_received`. -/
def onVoteReceived (env : Env) (n : Node) (nodeId : NodeId) (term : ℕ) (granted : Bool) :
    Node × Effects :=
  if n.persistent.term > term ∨ n.volatile.status = .leader then (n, {})
  else if n.persistent.term < term then
    let p := { n.persistent with term := term }
    let v :=
      { n.volatile with
        status := .follower
        leader := some nodeId
        electionTimeoutRange := n.volatile.electionTimeoutRange.pickTimeoutValue env.timeout
        electionTimeout := env.now
        votedFor := none }
    ({ persistent := p, volatile := v }, {})
  else if granted then
    let v := { n.volatile with tally := insert nodeId n.volatile.tally }
    if v.haveWeReachedQuorum then switchToLeader env { n with volatile := v }
    else ({ n with volatile := v }, {})
  else (n, {})

/-- The state on_append_entries goes on with once the term of the request is
accepted: the sender is recorded as the leader of the term. -/
def followLeader (env : Env) (n : Node) (term : ℕ) (leaderId : NodeId) : Node :=
  { persistent := { n.persistent with term := term }
    volatile :=
      { n.volatile with
        electionTimeout := env.now
        status := .follower
        leader := some leaderId
        votedFor := some leaderId } }

@[simp] theorem followLeader_status (env : Env) (n : Node) (term : ℕ) (leaderId : NodeId) :
    (n.followLeader env term leaderId).volatile.status = .follower := rfl

/-- The log on_append_entries appends to: truncated when it reaches beyond the
previous entry and its tail has another term than the request. -/
def truncated (es : Entries) (term prevLogIndex prevLogTerm : ℕ) : Entries :=
  if es.lastIndex > prevLogIndex ∧ es.lastTerm ≠ term then
    es.removeUncommittedEntriesFrom prevLogIndex prevLogTerm
  else es

/-- `on_append_entries`. -/
def onAppendEntries (env : Env) (n : Node) (term : ℕ) (leaderId : NodeId)
    (prevLogIndex prevLogTerm leaderCommit : ℕ) (entries : List Entry) :
    Option (Node × (ℕ × Bool)) :=
  if n.persistent.term > term then some (n, (n.persistent.term, false))
  else
    let n := n.followLeader env term leaderId
    if ¬ n.persistent.entries.containsLog prevLogIndex prevLogTerm then
      some (n, (n.persistent.term, false))
    else if entries.isEmpty then some (n, (n.persistent.term, true))
    else do
      let es := truncated n.persistent.entries term prevLogIndex prevLogTerm
      let last ← entries.getLast?
      let es ← es.append entries
      let commitIndex :=
        if leaderCommit > n.volatile.commitIndex then min leaderCommit last.index
        else n.volatile.commitIndex
      some
        ({ persistent := { n.persistent with entries := es }
           volatile := { n.volatile with commitIndex := commitIndex } },
          (n.persistent.term, true))

/-- `on_append_entries_resp`, with the answers sent to the confirmed requests. -/
def onAppendEntriesResp (v : Volatile) (nodeId : NodeId) (batchEndLogIndex : Option ℕ)
    (resp : Option AppendEntriesResp) : Option (Volatile × List (Sender × Option ℕ)) :=
  if v.status ≠ .leader then some (v, [])
  else
    match resp with
    | none => some (v, [])
    | some resp =>
      if resp.success then
        match batchEndLogIndex with
        | none => some (v, [])
        | some batchEnd => do
          let seeds ← v.seeds.nodeMut nodeId
            (fun seed => { seed with matchIndex := batchEnd, nextIndex := addU64 batchEnd 1 })
            fun _ => rfl
          let lowest := seeds.computeLowestReplicatedIndex
          some
            ({ v with
                seeds := seeds
                inflights := v.inflights.filter fun x => ¬ x.1 ≤ lowest
                commitIndex := lowest },
              (v.inflights.filter fun x => x.1 ≤ lowest).map fun x => (x.2, some x.1))
      else do
        let seeds ← v.seeds.nodeMut nodeId
          (fun seed => { seed with nextIndex := seed.nextIndex - 1 }) fun _ => rfl
        some ({ v with seeds := seeds }, [])

end Node

end Server
end RaftPlayground
