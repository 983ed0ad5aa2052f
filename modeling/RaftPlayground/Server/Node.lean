/-
# The loop of a node

`state_machine` of `raft-server/src/machine.rs`: what one turn of the loop does
to the state, for a tick and for every message.  `Shutdown` leaves the loop and
has no turn.  A run of a node is a sequence of turns from `Node::start`, each
with what it handed to the runtime; a turn that panics ends the thread, so it is
no step.
-/

import RaftPlayground.Protocol.Run
import RaftPlayground.Server.Stream

namespace RaftPlayground
namespace Server

open Protocol

/-- What a turn of the loop starts with: a due tick, or a message. -/
inductive Input
  | tick
  | msg (m : Msg)
deriving DecidableEq, Repr

/-- The dispatch of `state_machine`. -/
def Node.handle (env : Env) (n : Node) : Input → Option (Node × Effects)
  | .tick => some (n.onTick env)
  | .msg (.requestVote term candidateId lastLogIndex lastLogTerm) =>
    let (n, result) := n.onRequestVote term candidateId lastLogIndex lastLogTerm
    some (n, { reply := some result })
  | .msg (.appendEntries term leaderId prevLogIndex prevLogTerm leaderCommit entries) => do
    let (n, result) ←
      n.onAppendEntries env term leaderId prevLogIndex prevLogTerm leaderCommit entries
    some (n, { reply := some result })
  | .msg (.voteReceived nodeId term granted) => some (n.onVoteReceived env nodeId term granted)
  | .msg (.appendEntriesResp nodeId batchEndLogIndex resp) => do
    let (v, answers) ← Node.onAppendEntriesResp n.volatile nodeId batchEndLogIndex resp
    some ({ n with volatile := v }, { answers })
  | .msg (.appendStream streamId events resp) =>
    let (n, answers) := n.onAppendStream streamId events resp
    some (n, { answers })
  | .msg (.readStream streamId) => do
    let batch ← n.persistent.onReadStream streamId
    some (n, { events := some batch })
  | .msg .status => some (n, { status := some n.onStatus })

/-- One turn of the loop of a node, with what it handed out. -/
structure Turn where
  env : Env
  input : Input
  effects : Effects
deriving DecidableEq

/-- The turn `t` takes the node `n` to `n'`. -/
def Node.next (n : Node) (t : Turn) (n' : Node) : Prop :=
  n.handle t.env t.input = some (n', t.effects)

/-- The runs of one node, over any sequence of ticks and messages. -/
abbrev NodeRun (id : NodeId) (seeds : List Seed) (now : ℕ) : List (Step Node Turn) → Node → Prop :=
  Run Node.next (Node.start id seeds now)

end Server
end RaftPlayground
