/-
# A cluster whose members are started again

`CommandHandler::start` of `raft-repl/src/handler.rs` and `Node::new` of `raft-server/src/lib.rs`.

To start a node that is there already is to stop it and to make a new one under the same
address: a new thread with a new mailbox, and the state of `Persistent::load`, whatever the
old one knew.  The old one is told to shut down and nobody waits for it, so for a while both
may run, and a request to the address may reach either.  An RPC posts its reply to the
mailbox of the process that made it, and to no other.

`Fleet` is the cluster of all these processes.  Each has a number, and every packet in flight
carries the number of the process that waits for it.
-/

import RaftPlayground.Server.Move

namespace RaftPlayground
namespace Server

open Protocol

/-- A process started for a node, and how many were started for it before. -/
structure Proc where
  id : NodeId
  epoch : ℕ
deriving DecidableEq, Repr

instance : DecidablePred Packet.IsRequest
  | .voteReq .. | .entriesReq .. => isTrue trivial
  | .voteResp .. | .entriesResp .. => isFalse id

/-- A packet in flight, with the number of the process whose call it belongs to. -/
structure Flight where
  packet : Packet
  epoch : ℕ
deriving DecidableEq, Repr

/-- A request reaches whoever runs under the address, a reply the process that waits for it. -/
def Flight.Reaches (f : Flight) (p : Proc) : Prop :=
  p.id = f.packet.dst ∧ (¬ f.packet.IsRequest → p.epoch = f.epoch)

instance (f : Flight) (p : Proc) : Decidable (f.Reaches p) :=
  inferInstanceAs (Decidable (_ ∧ (_ → _)))

/-- The state of a cluster whose members are started again: the processes, those that run,
how many were started for each node, and what a `Cluster` has. -/
structure Fleet where
  nodes : Proc → Node
  live : Finset Proc
  epochs : NodeId → ℕ
  net : List Flight
  clock : ℕ
  requests : ℕ

/-- What may happen next. -/
inductive FleetAction
  | start (id : NodeId)
  | stop (p : Proc)
  | tick (env : Env) (p : Proc)
  | client (env : Env) (p : Proc) (req : ClientReq)
  | deliver (env : Env) (f : Flight) (p : Proc)
  | lose (f : Flight)
  | fail (f : Flight)
deriving DecidableEq, Repr

/-- A call of a handler of a process. -/
structure FleetCall where
  proc : Proc
  env : Env
  input : Input
deriving DecidableEq, Repr

namespace Fleet

/-- A fleet of which nothing runs yet, and whose process `p` will start at the instant
`began p`. -/
def init (cfg : Config) (began : Proc → ℕ) : Fleet :=
  { nodes := fun p => Node.start p.id (cfg.seeds p.id) (began p)
    live := ∅
    epochs := fun _ => 0
    net := []
    clock := 0
    requests := 0 }

/-- The call an action makes. -/
def callOf (c : Fleet) : FleetAction → Option FleetCall
  | .tick env proc => some { proc, env, input := .tick }
  | .client env proc req => some { proc, env, input := .msg (req.msg c.requests) }
  | .deliver env f proc => some { proc, env, input := .msg f.packet.msg }
  | .start _ | .stop _ | .lose _ | .fail _ => none

/-- The process runs, the clock does not go back, and a drawn timeout is in the range of the
process. -/
def Admits (c : Fleet) (p : Proc) (env : Env) : Prop :=
  p ∈ c.live ∧ c.clock ≤ env.now ∧
    (c.nodes p).volatile.electionTimeoutRange.low ≤ env.timeout ∧
      env.timeout < (c.nodes p).volatile.electionTimeoutRange.high

instance (c : Fleet) (p : Proc) (env : Env) : Decidable (c.Admits p env) :=
  inferInstanceAs (Decidable (_ ∧ _ ∧ _ ∧ _))

/-- The packets, each as part of a call of the process with the number. -/
def flights (epoch : ℕ) (ps : List Packet) : List Flight := ps.map fun packet => { packet, epoch }

/-- The fleet after the call, with `net` in flight beside what the call adds. -/
def call (c : Fleet) (net : List Flight) (answer : Effects → List Flight) (k : FleetCall) :
    Option Fleet := do
  let (n, eff) ← (c.nodes k.proc).handle k.env k.input
  some
    { c with
      nodes := Function.update c.nodes k.proc n
      net := net ++ answer eff ++ flights k.proc.epoch (eff.packets k.proc.id)
      clock := k.env.now }

/-- One step of a fleet; `none` where the action is not possible. -/
def step (cfg : Config) (c : Fleet) : FleetAction → Option Fleet
  | .start id =>
    if id ∈ cfg.members then
      some
        { c with
          live := insert ⟨id, c.epochs id⟩ c.live
          epochs := Function.update c.epochs id (c.epochs id + 1) }
    else none
  | .stop p => if p ∈ c.live then some { c with live := c.live.erase p } else none
  | .tick env proc =>
    if c.Admits proc env then c.call c.net (fun _ => []) { proc, env, input := .tick } else none
  | .client env proc req =>
    if c.Admits proc env then do
      let c' ← c.call c.net (fun _ => []) { proc, env, input := .msg (req.msg c.requests) }
      some { c' with requests := c.requests + 1 }
    else none
  | .deliver env f proc =>
    if f ∈ c.net ∧ f.Reaches proc ∧ c.Admits proc env then
      c.call (c.net.erase f) (fun eff => flights f.epoch (f.packet.answer eff))
        { proc, env, input := .msg f.packet.msg }
    else none
  | .lose f => if f ∈ c.net then some { c with net := c.net.erase f } else none
  | .fail f =>
    if f ∈ c.net then
      some { c with net := c.net.erase f ++ flights f.epoch f.packet.failure }
    else none

/-- The action `a` takes the fleet `c` to `c'`. -/
def next (cfg : Config) (c : Fleet) (a : FleetAction) (c' : Fleet) : Prop :=
  c.step cfg a = some c'

end Fleet

/-- The runs of a fleet. -/
abbrev FleetRun (cfg : Config) (began : Proc → ℕ) : List (Step Fleet FleetAction) → Fleet → Prop :=
  Run (Fleet.next cfg) (Fleet.init cfg began)

/-- A run of a fleet, by evaluation. -/
theorem FleetRun.exists_of_replay (cfg : Config) (as : List FleetAction)
    (P : List (Step Fleet FleetAction) → Fleet → Prop) [∀ h c, Decidable (P h c)]
    (hcheck : (replay (Fleet.step cfg) [] (Fleet.init cfg fun _ => 0) as).any
      (fun x => decide (P x.1 x.2)) = true) :
    ∃ h c, FleetRun cfg (fun _ => 0) h c ∧ P h c :=
  Run.exists_of_replay as P hcheck

end Server
end RaftPlayground
