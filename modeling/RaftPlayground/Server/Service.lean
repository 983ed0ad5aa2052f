/-
# The services of a node

`RaftImpl` and `ApiImpl` of `raft-server/src/grpc.rs`, over the `NodeClient` of
`raft-server/src/machine.rs`.

A service checks a call, puts a request into the mailbox of the node with a channel for the
reply, and waits on the channel.  What it returns is a response or a `Status`: of a call that
lacks an id, of one the node turns away, of one that finds the thread gone, and of one whose
channel is dropped before the node sends.

Calls are numbered in the order they come, and the number of a call is that of its channel.
The results are kept in the order the calls return.  `NodeClient` also posts what needs no
reply, and a post to a thread that is gone is ignored.
-/

import RaftPlayground.Server.Loop

namespace RaftPlayground
namespace Server

open Protocol

/-- `impl Display for Status`. -/
def Status.display : Status → String
  | follower => "follower"
  | candidate => "candidate"
  | leader => "leader"

/-- A call of the services `Raft` and `Api`. -/
inductive Rpc
  | requestVote (term : ℕ) (candidateId : Option NodeId) (lastLogIndex lastLogTerm : ℕ)
  | appendEntries (term : ℕ) (leaderId : Option NodeId)
      (prevLogIndex prevLogTerm leaderCommit : ℕ) (entries : List Entry)
  | append (streamId : String) (events : List Bytes)
  | read (streamId : String)
  | ping
  | status
deriving DecidableEq, Repr

/-- The codes of `tonic::Status` the services return. -/
inductive Code
  | invalidArgument
  | failedPrecondition
  | unavailable
deriving DecidableEq, Repr

/-- A `tonic::Status`. -/
structure Fault where
  code : Code
  message : String
deriving DecidableEq, Repr

/-- A response of the services. -/
inductive RpcResp
  | vote (term : ℕ) (voteGranted : Bool)
  | entries (term : ℕ) (success : Bool)
  | append (position : ℕ)
  | read (events : List RecordedEvent)
  | ping
  | status (host : String) (port term : ℕ) (status : String) (logIndex global : ℕ)
      (leaderHost : String) (leaderPort : ℕ)
deriving DecidableEq, Repr

/-- What a call returns. -/
abbrev RpcResult := Except Fault RpcResp

instance : DecidableEq RpcResult
  | .ok a, .ok b => decidable_of_iff (a = b) ⟨fun h => h ▸ rfl, Except.ok.inj⟩
  | .error a, .error b => decidable_of_iff (a = b) ⟨fun h => h ▸ rfl, Except.error.inj⟩
  | .ok _, .error _ | .error _, .ok _ => isFalse nofun

namespace Rpc

/-- What a service makes of a call before it asks the node: a result, or a request. -/
def accept : Rpc → RpcResult ⊕ Request
  | requestVote _ none _ _ => .inl (.error ⟨.invalidArgument, "Candidate id is not provided"⟩)
  | requestVote term (some candidateId) lastLogIndex lastLogTerm =>
    .inr (.requestVote term candidateId lastLogIndex lastLogTerm)
  | appendEntries _ none _ _ _ _ => .inl (.error ⟨.invalidArgument, "Candidate id not provided"⟩)
  | appendEntries term (some leaderId) prevLogIndex prevLogTerm leaderCommit entries =>
    .inr (.appendEntries term leaderId prevLogIndex prevLogTerm leaderCommit entries)
  | append streamId events => .inr (.client (.append streamId events))
  | read streamId => .inr (.client (.read streamId))
  | ping => .inl (.ok .ping)
  | status => .inr (.client .status)

end Rpc

/-- The text `NodeClient` bails out with when the thread is gone. -/
def nodeIsDown : String := "Node is down"

namespace Request

/-- The text `NodeClient` bails out with when the channel of the request is dropped. -/
def unexpected : Request → String
  | requestVote .. => "Unexpected error when asked to vote"
  | appendEntries .. => "Unexpected when asked to replicate entries"
  | client (.append streamId _) => "Unexpected error when appending stream '" ++ streamId ++ "'"
  | client (.read streamId) => "Unexpected error when looking for stream '" ++ streamId ++ "'"
  | client .status => "Unexpected error when querying the status"

/-- What a call returns whose request got the reply. -/
def result (req : Request) : Reply → RpcResult
  | .vote term granted => .ok (.vote term granted)
  | .entries term success => .ok (.entries term success)
  | .append (some position) => .ok (.append position)
  | .append none => .error ⟨.failedPrecondition, "not-leader"⟩
  | .read (some events) => .ok (.read events)
  | .read none => .error ⟨.failedPrecondition, "not-leader"⟩
  | .status snapshot =>
    .ok (.status snapshot.id.host snapshot.id.port snapshot.term snapshot.status.display
      snapshot.logIndex snapshot.global (snapshot.leaderId.elim "" NodeId.host)
      (snapshot.leaderId.elim 0 NodeId.port))
  | .dropped => .error ⟨.unavailable, req.unexpected⟩

end Request

/-- What `NodeClient` posts without waiting for a reply. -/
inductive Post
  | voteReceived (nodeId : NodeId) (term : ℕ) (granted : Bool)
  | appendEntriesResponseReceived (nodeId : NodeId) (batchEndLogIndex : Option ℕ)
      (resp : Option AppendEntriesResp)
  | shutdown
deriving DecidableEq, Repr

/-- The mail of a post. -/
def Post.mail : Post → Mail
  | voteReceived nodeId term granted => .voteReceived nodeId term granted
  | appendEntriesResponseReceived nodeId batchEndLogIndex resp =>
    .appendEntriesResp nodeId batchEndLogIndex resp
  | shutdown => .shutdown

/-- A node with its services: the thread, the calls so far, and those that returned. -/
structure Service where
  thread : Thread
  asked : List Rpc
  results : List (ℕ × RpcResult)

/-- What may happen next. -/
inductive ServiceAction
  | call (rpc : Rpc)
  | post (p : Post)
  | lap (a : ThreadAction)
deriving DecidableEq, Repr

/-- A step of the services, with what its thread makes of it. -/
structure Event where
  act : ServiceAction
  out : Outcome
deriving DecidableEq

namespace Service

/-- A node that was asked nothing. -/
def start (id : NodeId) (seeds : List Seed) (now : ℕ) : Service :=
  { thread := Thread.start id seeds now, asked := [], results := [] }

/-- What the call returns whose channel yields the reply. -/
def returned (s : Service) (x : Sender × Reply) : Option (ℕ × RpcResult) := do
  let rpc ← s.asked[x.1]?
  let req ← rpc.accept.getRight?
  some (x.1, req.result x.2)

/-- One step; `none` where the action is not possible. -/
def step (s : Service) : ServiceAction → Option (Service × Outcome)
  | .call rpc =>
    let asked := s.asked ++ [rpc]
    let number := s.asked.length
    match rpc.accept with
    | .inl result => some ({ s with asked, results := s.results ++ [(number, result)] }, {})
    | .inr req =>
      match s.thread.step (.send (.request req number)) with
      | some (thread, out) => some ({ s with thread, asked }, out)
      | none =>
        let fault := .error ⟨.unavailable, nodeIsDown⟩
        some ({ s with asked, results := s.results ++ [(number, fault)] }, {})
  | .post p =>
    match s.thread.step (.send p.mail) with
    | some (thread, out) => some ({ s with thread }, out)
    | none => some (s, {})
  -- messages come by calls and posts alone
  | .lap (.send _) => none
  | .lap a => do
    let (thread, out) ← s.thread.step a
    some ({ s with thread, results := s.results ++ out.replies.filterMap s.returned }, out)

/-- The event `e` takes the node `s` to `s'`. -/
def next (s : Service) (e : Event) (s' : Service) : Prop := s.step e.act = some (s', e.out)

/-- The ways a step ends. -/
inductive Moved (s : Service) : Event → Service → Prop
  | settled {rpc result} (accept : rpc.accept = .inl result) :
      Moved s ⟨.call rpc, {}⟩
        { s with asked := s.asked ++ [rpc], results := s.results ++ [(s.asked.length, result)] }
  | queued {rpc req thread} (accept : rpc.accept = .inr req)
      (send : s.thread.next ⟨.send (.request req s.asked.length), {}⟩ thread) :
      Moved s ⟨.call rpc, {}⟩ { s with thread, asked := s.asked ++ [rpc] }
  | down {rpc req} (accept : rpc.accept = .inr req) (ended : s.thread.phase = .ended) :
      Moved s ⟨.call rpc, {}⟩
        { s with
          asked := s.asked ++ [rpc]
          results := s.results ++ [(s.asked.length, .error ⟨.unavailable, nodeIsDown⟩)] }
  | posted {p thread} (send : s.thread.next ⟨.send p.mail, {}⟩ thread) :
      Moved s ⟨.post p, {}⟩ { s with thread }
  | ignored {p} : Moved s ⟨.post p, {}⟩ s
  | lapped {a thread out} (own : ∀ m, a ≠ .send m) (lap : s.thread.next ⟨a, out⟩ thread) :
      Moved s ⟨.lap a, out⟩
        { s with thread, results := s.results ++ out.replies.filterMap s.returned }

/-- A message is sent to a thread that runs, and nothing comes of it yet. -/
theorem send_cases (s : Thread) (m : Mail) :
    (s.phase = .ended ∧ s.step (.send m) = none) ∨
      ∃ s', s.next ⟨.send m, {}⟩ s' ∧ s.step (.send m) = some (s', {}) := by
  by_cases h : s.phase = .ended
  · exact Or.inl ⟨h, if_pos h⟩
  · exact Or.inr ⟨_, if_neg h, if_neg h⟩

theorem next_moved {s s' : Service} {e : Event} (hnext : s.next e s') : s.Moved e s' := by
  obtain ⟨act, out⟩ := e
  unfold next at hnext
  cases act with
  | call rpc =>
      simp only [step] at hnext
      split at hnext
      case h_1 result haccept =>
        obtain ⟨rfl, rfl⟩ := Prod.mk.inj (Option.some.inj hnext)
        exact .settled haccept
      case h_2 req haccept =>
        rcases send_cases s.thread (.request req s.asked.length) with
          ⟨hended, hnone⟩ | ⟨thread, hsend, hsome⟩
        · rw [hnone] at hnext
          obtain ⟨rfl, rfl⟩ := Prod.mk.inj (Option.some.inj hnext)
          exact .down haccept hended
        · rw [hsome] at hnext
          obtain ⟨rfl, rfl⟩ := Prod.mk.inj (Option.some.inj hnext)
          exact .queued haccept hsend
  | post p =>
      simp only [step] at hnext
      rcases send_cases s.thread p.mail with ⟨_, hnone⟩ | ⟨thread, hsend, hsome⟩
      · rw [hnone] at hnext
        obtain ⟨rfl, rfl⟩ := Prod.mk.inj (Option.some.inj hnext)
        exact .ignored
      · rw [hsome] at hnext
        obtain ⟨rfl, rfl⟩ := Prod.mk.inj (Option.some.inj hnext)
        exact .posted hsend
  | lap a =>
      have hlap : (∀ m, a ≠ .send m) ∧ (do
          let (thread, out) ← s.thread.step a
          some ({ s with thread, results := s.results ++ out.replies.filterMap s.returned }, out)) =
            some (s', out) := by
        cases a with
        | send m => exact nomatch hnext
        | check | receive | timeout | disconnect => exact ⟨nofun, hnext⟩
      obtain ⟨hown, hlap⟩ := hlap
      obtain ⟨⟨thread, out'⟩, hstep, hlap⟩ := Option.bind_eq_some_iff.1 hlap
      obtain ⟨rfl, rfl⟩ := Prod.mk.inj (Option.some.inj hlap)
      exact .lapped hown hstep

/-- The turn of the node a step executes. -/
def turnOf (st : Step Service Event) : Option (Step Node Turn) :=
  st.act.out.turn.map fun t => ⟨st.before.thread.node, t, st.after.thread.node⟩

/-- The turns of the node a run executes. -/
def turns (h : List (Step Service Event)) : List (Step Node Turn) := h.filterMap turnOf

/-- The turn of a step is one of those of the run. -/
theorem mem_turns {h : List (Step Service Event)} {st : Step Service Event} (hst : st ∈ h)
    {t : Turn} (ht : st.act.out.turn = some t) :
    ⟨st.before.thread.node, t, st.after.thread.node⟩ ∈ turns h :=
  List.mem_filterMap.2 ⟨st, hst, by rw [turnOf, ht, Option.map_some]⟩

end Service

/-- The runs of a node with its services. -/
abbrev ServiceRun (id : NodeId) (seeds : List Seed) (now : ℕ) :
    List (Step Service Event) → Service → Prop :=
  Run Service.next (Service.start id seeds now)

/-- **The services run the thread**, and through it the node. -/
theorem ServiceRun.exists_threadRun {id : NodeId} {seeds : List Seed} {now : ℕ}
    {h : List (Step Service Event)} {s : Service} (hrun : ServiceRun id seeds now h s) :
    ∃ ls, ThreadRun id seeds now ls s.thread ∧ Thread.turns ls = Service.turns h := by
  induction hrun with
  | nil => exact ⟨[], .nil, rfl⟩
  | cons _ hnext ih =>
      obtain ⟨ls, hls, hturns⟩ := ih
      cases Service.next_moved hnext with
      | settled | down | ignored => exact ⟨ls, hls, hturns⟩
      | queued _ send | posted send => exact ⟨_, hls.cons send, hturns⟩
      | lapped _ lap =>
          refine ⟨_, hls.cons lap, ?_⟩
          rw [Thread.turns, Service.turns, List.filterMap_cons, List.filterMap_cons]
          rw [Thread.turns, Service.turns] at hturns
          rw [hturns]
          rfl

theorem ServiceRun.turns_run {id : NodeId} {seeds : List Seed} {now : ℕ}
    {h : List (Step Service Event)} {s : Service} (hrun : ServiceRun id seeds now h s) :
    NodeRun id seeds now (Service.turns h) s.thread.node := by
  obtain ⟨ls, hls, hturns⟩ := hrun.exists_threadRun
  exact hturns ▸ ThreadRun.turns_run hls

/-- A run of a node that starts at the instant `0`, by evaluation. -/
theorem ServiceRun.exists_of_replay (id : NodeId) (seeds : List Seed) (as : List ServiceAction)
    (P : List (Step Service Event) → Service → Prop) [∀ h s, Decidable (P h s)]
    (hcheck : (replayWith Service.step Event.mk [] (Service.start id seeds 0) as).any
      (fun x => decide (P x.1 x.2)) = true) :
    ∃ h s, ServiceRun id seeds 0 h s ∧ P h s :=
  Run.exists_of_replayWith (fun _ _ _ h => h) as P hcheck

end Server
end RaftPlayground
