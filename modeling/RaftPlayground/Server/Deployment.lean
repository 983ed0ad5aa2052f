/-
# The deployed system

The services of all members, and the tasks of `Seed::request_vote` and `Seed::send_append_entries`
in `raft-server/src/seed.rs` that connect them.

Every request of a turn is a task.  It calls the service of the peer, at any later time, and goes
on when the call returns: it posts what came back to the mailbox of its own node.  A call may also
fail, on the way there or on the way back, and whatever becomes of it at the peer: the request of a
call that failed on the way there is left behind, and may still reach the peer.  Calls of the
service `Raft` come from tasks alone, those of `Api` from clients.

A turn is one step, at the instant it reads the clock, and the steps are in the order of these
instants.
-/

import RaftPlayground.Server.Service
import RaftPlayground.Server.Move

namespace RaftPlayground
namespace Server

open Protocol

/-- The call belongs to the service `Api`. -/
def Rpc.IsApi : Rpc → Prop
  | requestVote .. | appendEntries .. => False
  | append .. | read _ | ping | status => True

instance : DecidablePred Rpc.IsApi
  | .requestVote .. | .appendEntries .. => isFalse id
  | .append .. | .read _ | .ping | .status => isTrue trivial

/-- What the call with the number returned. -/
def Service.result? (s : Service) (number : ℕ) : Option RpcResult := s.results.lookup number

/-- What a task asks its peer. -/
inductive Ask
  | vote (req : VoteReq)
  | entries (req : EntriesReq)
deriving DecidableEq, Repr

namespace Ask

/-- The call of a task. -/
def rpc : Ask → Rpc
  | vote req => .requestVote req.term (some req.candidateId) req.lastLogIndex req.lastLogTerm
  | entries req =>
    .appendEntries req.term (some req.leaderId) req.prevLogIndex req.prevLogTerm req.leaderCommit
      req.entries

/-- What a task posts once it has a response of the peer, or none: a vote call that fails is
dropped. -/
def post (peer : NodeId) : Ask → Option RpcResp → Option Post
  | vote _, some (.vote term granted) => some (.voteReceived peer term granted)
  | vote _, _ => none
  | entries req, some (.entries term success) =>
    some (.appendEntriesResponseReceived peer (Packet.batchEnd req) (some { term, success }))
  | entries req, _ => some (.appendEntriesResponseReceived peer (Packet.batchEnd req) none)

end Ask

/-- A task: the node it was spawned for, the peer, and, once its call got there, the number of
the call. -/
structure Task where
  src : NodeId
  dst : NodeId
  ask : Ask
  call : Option ℕ
deriving DecidableEq, Repr

/-- What a task leaves behind when it goes on before its call got there. -/
def Task.unsent (t : Task) : List Task := if t.call = none then [t] else []

/-- The tasks a turn of the node spawns. -/
def Effects.tasks (id : NodeId) (eff : Effects) : List Task :=
  eff.voteReqs.map (fun x => ⟨id, x.1, .vote x.2, none⟩) ++
    eff.entriesReqs.map fun x => ⟨id, x.1, .entries x.2, none⟩

/-- The tasks a step of the thread of the node spawns. -/
def Outcome.tasks (id : NodeId) (out : Outcome) : List Task :=
  out.turn.elim [] fun t => t.effects.tasks id

/-- The clock after a step of a thread. -/
def Outcome.clock (out : Outcome) (now : ℕ) : ℕ := out.turn.elim now fun t => t.env.now

/-- The state of the system: the members with their services, the tasks, the requests of failed
calls that are still on their way, and the clock. -/
structure Deployment where
  services : NodeId → Service
  tasks : List Task
  strays : List Task
  clock : ℕ

/-- What may happen next. -/
inductive DeploymentAction
  | call (id : NodeId) (rpc : Rpc)
  | shutdown (id : NodeId)
  | arrive (t : Task)
  | finish (t : Task)
  | fail (t : Task)
  | stray (t : Task)
  | lap (id : NodeId) (a : ThreadAction)
deriving DecidableEq, Repr

/-- A step of the system, with what a thread makes of it. -/
structure DeploymentEvent where
  act : DeploymentAction
  out : Outcome
deriving DecidableEq

namespace Deployment

/-- A system whose member `id` starts at the instant `started id`. -/
def init (cfg : Config) (started : NodeId → ℕ) : Deployment :=
  { services := fun id => Service.start id (cfg.seeds id) (started id)
    tasks := []
    strays := []
    clock := 0 }

/-- A step of the services of a member. -/
def serve (s : Deployment) (id : NodeId) (a : ServiceAction) : Option (Deployment × Outcome) := do
  let (service, out) ← (s.services id).step a
  some ({ s with services := Function.update s.services id service }, out)

/-- The task goes on with a response, or without one. -/
def goOn (s : Deployment) (t : Task) (resp : Option RpcResp) : Option (Deployment × Outcome) :=
  if t ∈ s.tasks then
    let s := { s with tasks := s.tasks.erase t, strays := s.strays ++ t.unsent }
    match t.ask.post t.dst resp with
    | none => some (s, {})
    | some p => s.serve t.src (.post p)
  else none

/-- One step of the system; `none` where the action is not possible. -/
def step (cfg : Config) (s : Deployment) : DeploymentAction → Option (Deployment × Outcome)
  | .call id rpc => if id ∈ cfg.members ∧ rpc.IsApi then s.serve id (.call rpc) else none
  | .shutdown id => if id ∈ cfg.members then s.serve id (.post .shutdown) else none
  | .arrive t =>
    if t ∈ s.tasks ∧ t.call = none then
      let number := (s.services t.dst).asked.length
      let tasks := s.tasks.erase t ++ [{ t with call := some number }]
      { s with tasks }.serve t.dst (.call t.ask.rpc)
    else none
  | .finish t => do
    let number ← t.call
    let result ← (s.services t.dst).result? number
    s.goOn t result.toOption
  | .fail t => s.goOn t none
  | .stray t =>
    if t ∈ s.strays then
      { s with strays := s.strays.erase t }.serve t.dst (.call t.ask.rpc)
    else none
  | .lap id a =>
    if id ∈ cfg.members then do
      let (s', out) ← s.serve id (.lap a)
      if s.clock ≤ out.clock s.clock then
        some ({ s' with tasks := s.tasks ++ out.tasks id, clock := out.clock s.clock }, out)
      else none
    else none

/-- The event `e` takes the system `s` to `s'`. -/
def next (cfg : Config) (s : Deployment) (e : DeploymentEvent) (s' : Deployment) : Prop :=
  s.step cfg e.act = some (s', e.out)

/-- The task gets a response, or none. -/
def Gets (s : Deployment) (t : Task) (resp : Option RpcResp) : DeploymentAction → Prop
  | .finish t' => t' = t ∧ ∃ number result, t.call = some number ∧
      (s.services t.dst).result? number = some result ∧ resp = result.toOption
  | .fail t' => t' = t ∧ resp = none
  | _ => False

/-- The ways a step of the system goes. -/
inductive Moved (cfg : Config) (s : Deployment) : DeploymentEvent → Deployment → Prop
  | called {id rpc service} (member : id ∈ cfg.members) (api : rpc.IsApi)
      (call : (s.services id).next ⟨.call rpc, {}⟩ service) :
      Moved cfg s ⟨.call id rpc, {}⟩ { s with services := Function.update s.services id service }
  | told {id service} (member : id ∈ cfg.members)
      (post : (s.services id).next ⟨.post .shutdown, {}⟩ service) :
      Moved cfg s ⟨.shutdown id, {}⟩ { s with services := Function.update s.services id service }
  | arrived {t service} (mem : t ∈ s.tasks) (sent : t.call = none)
      (call : (s.services t.dst).next ⟨.call t.ask.rpc, {}⟩ service) :
      Moved cfg s ⟨.arrive t, {}⟩
        { s with
          services := Function.update s.services t.dst service
          tasks := s.tasks.erase t ++ [{ t with call := some (s.services t.dst).asked.length }] }
  | silenced {t resp a} (mem : t ∈ s.tasks) (gets : s.Gets t resp a)
      (none : t.ask.post t.dst resp = none) :
      Moved cfg s ⟨a, {}⟩ { s with tasks := s.tasks.erase t, strays := s.strays ++ t.unsent }
  | posted {t resp a p service} (mem : t ∈ s.tasks) (gets : s.Gets t resp a)
      (some : t.ask.post t.dst resp = some p)
      (post : (s.services t.src).next ⟨.post p, {}⟩ service) :
      Moved cfg s ⟨a, {}⟩
        { s with
          services := Function.update s.services t.src service
          tasks := s.tasks.erase t
          strays := s.strays ++ t.unsent }
  | strayed {t service} (mem : t ∈ s.strays)
      (call : (s.services t.dst).next ⟨.call t.ask.rpc, {}⟩ service) :
      Moved cfg s ⟨.stray t, {}⟩
        { s with
          services := Function.update s.services t.dst service
          strays := s.strays.erase t }
  | lapped {id a service out} (member : id ∈ cfg.members)
      (lap : (s.services id).next ⟨.lap a, out⟩ service) (le : s.clock ≤ out.clock s.clock) :
      Moved cfg s ⟨.lap id a, out⟩
        { services := Function.update s.services id service
          tasks := s.tasks ++ out.tasks id
          strays := s.strays
          clock := out.clock s.clock }

end Deployment

/-- Nothing comes of a call or a post at once. -/
theorem Service.out_eq {s s' : Service} {e : Event} (hnext : s.next e s')
    (hquiet : ∀ a, e.act ≠ .lap a) : e.out = {} := by
  cases Service.next_moved hnext with
  | settled | queued | down | posted | ignored => rfl
  | lapped => exact absurd rfl (hquiet _)

/-- A step of the thread takes a turn of the node, or leaves the node alone. -/
theorem Service.turn_of_lap {s s' : Service} {a : ThreadAction} {out : Outcome}
    (hnext : s.next ⟨.lap a, out⟩ s') :
    (out.turn = none ∧ s'.thread.node = s.thread.node) ∨
      ∃ t, out.turn = some t ∧ s.thread.node.next t s'.thread.node ∧ s.thread.Draws t.env := by
  cases Service.next_moved hnext with
  | lapped _ lap =>
      rcases (Thread.turnOf_cases lap).2 with ⟨hnone, hnode⟩ | ⟨t, hsome, ht, _, _, hdraws⟩
      · exact Or.inl ⟨Option.map_eq_none_iff.1 hnone, hnode⟩
      · obtain ⟨t', ht', heq⟩ := Option.map_eq_some_iff.1 hsome
        obtain rfl : t' = t := congrArg Step.act heq
        exact Or.inr ⟨t', ht', ht, hdraws⟩

namespace Deployment

variable {cfg : Config} {s s' : Deployment}

theorem serve_eq_some {id : NodeId} {a : ServiceAction} {out : Outcome}
    (h : s.serve id a = some (s', out)) :
    ∃ service, (s.services id).next ⟨a, out⟩ service ∧
      s' = { s with services := Function.update s.services id service } := by
  obtain ⟨⟨service, out'⟩, hstep, heq⟩ := Option.bind_eq_some_iff.1 h
  obtain ⟨rfl, rfl⟩ := Prod.mk.inj (Option.some.inj heq)
  exact ⟨service, hstep, rfl⟩

theorem goOn_moved {t : Task} {resp : Option RpcResp} {a : DeploymentAction} {out : Outcome}
    (hgets : s.Gets t resp a) (h : s.goOn t resp = some (s', out)) : s.Moved cfg ⟨a, out⟩ s' := by
  obtain ⟨hmem, h⟩ := Option.ite_none_right_eq_some.1 h
  dsimp only at h
  split at h
  case h_1 hnone =>
    obtain ⟨rfl, rfl⟩ := Prod.mk.inj (Option.some.inj h)
    exact .silenced hmem hgets hnone
  case h_2 p hsome =>
    obtain ⟨service, hpost, rfl⟩ := serve_eq_some h
    obtain rfl : out = {} := Service.out_eq hpost nofun
    exact .posted hmem hgets hsome hpost

/-- **The case analysis of a step of the system.** -/
theorem next_moved {e : DeploymentEvent} (hnext : s.next cfg e s') : s.Moved cfg e s' := by
  obtain ⟨act, out⟩ := e
  unfold next at hnext
  cases act with
  | call id rpc =>
      obtain ⟨⟨hmem, hapi⟩, h⟩ := Option.ite_none_right_eq_some.1 hnext
      obtain ⟨service, hcall, rfl⟩ := serve_eq_some h
      obtain rfl : out = {} := Service.out_eq hcall nofun
      exact .called hmem hapi hcall
  | shutdown id =>
      obtain ⟨hmem, h⟩ := Option.ite_none_right_eq_some.1 hnext
      obtain ⟨service, hpost, rfl⟩ := serve_eq_some h
      obtain rfl : out = {} := Service.out_eq hpost nofun
      exact .told hmem hpost
  | arrive t =>
      obtain ⟨⟨hmem, hsent⟩, h⟩ := Option.ite_none_right_eq_some.1 hnext
      obtain ⟨service, hcall, rfl⟩ := serve_eq_some h
      obtain rfl : out = {} := Service.out_eq hcall nofun
      exact .arrived hmem hsent hcall
  | finish t =>
      obtain ⟨number, hcall, h⟩ := Option.bind_eq_some_iff.1 hnext
      obtain ⟨result, hresult, h⟩ := Option.bind_eq_some_iff.1 h
      exact goOn_moved ⟨rfl, number, result, hcall, hresult, rfl⟩ h
  | fail t => exact goOn_moved ⟨rfl, rfl⟩ hnext
  | stray t =>
      obtain ⟨hmem, h⟩ := Option.ite_none_right_eq_some.1 hnext
      obtain ⟨service, hcall, rfl⟩ := serve_eq_some h
      obtain rfl : out = {} := Service.out_eq hcall nofun
      exact .strayed hmem hcall
  | lap id a =>
      obtain ⟨hmem, h⟩ := Option.ite_none_right_eq_some.1 hnext
      obtain ⟨⟨s₁, out'⟩, hserve, h⟩ := Option.bind_eq_some_iff.1 h
      obtain ⟨hle, h⟩ := Option.ite_none_right_eq_some.1 h
      obtain ⟨rfl, rfl⟩ := Prod.mk.inj (Option.some.inj h)
      obtain ⟨service, hlap, rfl⟩ := serve_eq_some hserve
      exact .lapped hmem hlap hle

/-- The turn a step takes on the node `id`, if it takes one. -/
def turnOf (id : NodeId) (st : Step Deployment DeploymentEvent) : Option (Step Node Turn) :=
  match st.act.act with
  | .lap x _ =>
    if x = id then
      st.act.out.turn.map fun t =>
        ⟨(st.before.services id).thread.node, t, (st.after.services id).thread.node⟩
    else none
  | _ => none

/-- A task that goes on takes no turn. -/
theorem turnOf_of_gets {id : NodeId} {t : Task} {resp : Option RpcResp} {a : DeploymentAction}
    {out : Outcome} (hgets : s.Gets t resp a) : turnOf id ⟨s, ⟨a, out⟩, s'⟩ = none := by
  cases a with
  | finish | fail => rfl
  | call | shutdown | arrive | stray | lap => exact hgets.elim

/-- The turns of the node `id` in the history of the system. -/
def turns (id : NodeId) (h : List (Step Deployment DeploymentEvent)) : List (Step Node Turn) :=
  h.filterMap (turnOf id)

end Deployment

/-- The runs of the system. -/
abbrev DeploymentRun (cfg : Config) (started : NodeId → ℕ) :
    List (Step Deployment DeploymentEvent) → Deployment → Prop :=
  Run (Deployment.next cfg) (Deployment.init cfg started)

/-- A run of a system that starts at the instant `0`, by evaluation. -/
theorem DeploymentRun.exists_of_replay (cfg : Config) (as : List DeploymentAction)
    (P : List (Step Deployment DeploymentEvent) → Deployment → Prop) [∀ h s, Decidable (P h s)]
    (hcheck : (replayWith (Deployment.step cfg) DeploymentEvent.mk []
      (Deployment.init cfg fun _ => 0) as).any (fun x => decide (P x.1 x.2)) = true) :
    ∃ h s, DeploymentRun cfg (fun _ => 0) h s ∧ P h s :=
  Run.exists_of_replayWith (fun _ _ _ h => h) as P hcheck

/-- The trio elects the node on port 2113, with one vote; a client's append to it is stored by both
peers and returns.  A first heartbeat fails, and gets to the peer all the same. -/
def appendReturned : List DeploymentAction :=
  let A := localhost 2113
  let B := localhost 2114
  let C := localhost 2115
  let ms (n : ℕ) : ℕ := n * 1000000
  let check (id : NodeId) (n timeout : ℕ) : DeploymentAction :=
    .lap id (.check (ms n) ⟨ms n, timeout⟩ (ms n) (ms n))
  let receive (id : NodeId) (n : ℕ) : DeploymentAction := .lap id (.receive ⟨ms n, 150⟩ (ms n))
  let vote (call : Option ℕ) : Task := ⟨A, C, .vote ⟨A, 2, 0, 0⟩, call⟩
  let heartbeat : Task := ⟨A, B, .entries ⟨A, 2, 0, 1, 0, []⟩, none⟩
  let batch (id : NodeId) (call : Option ℕ) : Task :=
    ⟨A, id, .entries ⟨A, 2, 0, 1, 0, [⟨1, 2, putEvent "s" [7]⟩]⟩, call⟩
  [check B 30 299, check C 30 299, check A 30 150,
    .lap A (.timeout (ms 180) ⟨ms 180, 150⟩ (ms 180)),
    .arrive (vote none), receive C 181, .finish (vote (some 0)), check A 181 150, receive A 182,
    .fail heartbeat, .call A (.append "s" [[7]]), check A 183 150, receive A 184,
    check A 185 150, receive A 186, check A 214 150,
    .arrive (batch B none), .arrive (batch C none), .stray heartbeat,
    receive B 215, check C 215 150, receive C 215,
    .finish (batch B (some 0)), .finish (batch C (some 1)),
    receive A 216, check A 217 150, receive A 218]

/-- **Every member runs its services**, whatever the others do. -/
theorem DeploymentRun.exists_serviceRun {cfg : Config} {started : NodeId → ℕ}
    {h : List (Step Deployment DeploymentEvent)} {s : Deployment}
    (hrun : DeploymentRun cfg started h s) (id : NodeId) :
    ∃ hs, ServiceRun id (cfg.seeds id) (started id) hs (s.services id) ∧
      Service.turns hs = Deployment.turns id h := by
  induction hrun with
  | nil => exact ⟨[], .nil, rfl⟩
  | @cons h s e s' _ hnext ih =>
      obtain ⟨hs, hrun, hturns⟩ := ih
      -- a step of the services of one member, that takes the turn `turnOf` says
      have hstep : ∀ {x : NodeId} {e' : Event} {service : Service},
          (s.services x).next e' service →
          s'.services = Function.update s.services x service →
          (x = id → Deployment.turnOf id ⟨s, e, s'⟩ = Service.turnOf ⟨s.services x, e', service⟩) →
          (x ≠ id → Deployment.turnOf id ⟨s, e, s'⟩ = none) →
          ∃ hs, ServiceRun id (cfg.seeds id) (started id) hs (s'.services id) ∧
            Service.turns hs = Deployment.turns id (⟨s, e, s'⟩ :: h) := by
        intro x e' service hserve hservices hsame hother
        rw [hservices]
        by_cases hx : x = id
        · obtain rfl := hx
          rw [Function.update_self]
          refine ⟨_, hrun.cons hserve, ?_⟩
          rw [Service.turns, Deployment.turns, List.filterMap_cons, List.filterMap_cons,
            hsame rfl]
          rw [Service.turns, Deployment.turns] at hturns
          rw [hturns]
        · rw [Function.update_of_ne (Ne.symm hx)]
          refine ⟨hs, hrun, ?_⟩
          rw [Deployment.turns, List.filterMap_cons_none (hother hx), hturns, Deployment.turns]
      cases Deployment.next_moved hnext with
      | called _ _ call => exact hstep call rfl (fun _ => rfl) fun _ => rfl
      | told _ post => exact hstep post rfl (fun _ => rfl) fun _ => rfl
      | arrived _ _ call => exact hstep call rfl (fun _ => rfl) fun _ => rfl
      | strayed _ call => exact hstep call rfl (fun _ => rfl) fun _ => rfl
      | silenced _ gets =>
          refine ⟨hs, hrun, ?_⟩
          rw [hturns, Deployment.turns, Deployment.turns,
            List.filterMap_cons_none (Deployment.turnOf_of_gets gets)]
      | posted _ gets _ post =>
          exact hstep post rfl (fun _ => Deployment.turnOf_of_gets gets) fun _ =>
            Deployment.turnOf_of_gets gets
      | lapped _ lap =>
          refine hstep lap rfl (fun hx => (if_pos hx).trans ?_) fun hx => if_neg hx
          obtain rfl := hx
          dsimp only
          rw [Function.update_self]
          rfl

end Server
end RaftPlayground
