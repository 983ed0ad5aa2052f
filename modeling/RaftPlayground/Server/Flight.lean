/-
# What is in flight in the deployed system

A packet of a cluster stands for a message between the task of one node and the mailbox of another.
In the deployed system it is a task whose call has not reached the peer yet, the request a failed
call left behind, a mail in a mailbox, or a task whose call returned and that has not gone on; a
notice of a failed call is none.

What a task stands for depends on the results of its peer, and changes only when the call of the
task returns (`Task.packets_update`).
-/

import RaftPlayground.Protocol.Ledger
import RaftPlayground.Server.Deployment
import Mathlib.Algebra.BigOperators.Group.Finset.Basic
import Mathlib.Algebra.BigOperators.Group.Finset.Piecewise
import Mathlib.Algebra.Order.Group.Multiset
import Mathlib.Data.Multiset.AddSub

namespace RaftPlayground
namespace Server

open Protocol

/-- The packets a mail stands for in the mailbox of the node `id`. -/
def Mail.packets (id : NodeId) : Mail → List Packet
  | request (.requestVote term candidateId lastLogIndex lastLogTerm) _ =>
    [.voteReq candidateId id { candidateId, term, lastLogIndex, lastLogTerm }]
  | request (.appendEntries term leaderId prevLogIndex prevLogTerm leaderCommit entries) _ =>
    [.entriesReq leaderId id
      { leaderId, term, prevLogIndex, prevLogTerm, leaderCommit, entries }]
  | voteReceived nodeId term granted => [.voteResp nodeId id term granted]
  | appendEntriesResp nodeId batchEnd (some resp) => [.entriesResp nodeId id batchEnd (some resp)]
  | request (.client _) _ | appendEntriesResp _ _ none | shutdown => []

namespace Task

/-- The packet a task stands for until its call has reached the peer. -/
def request (t : Task) : Packet :=
  match t.ask with
  | .vote req => .voteReq t.src t.dst req
  | .entries req => .entriesReq t.src t.dst req

/-- The packets a task stands for that has a response, or none. -/
def answer (t : Task) (resp : Option RpcResp) : List Packet :=
  (t.ask.post t.dst resp).elim [] fun p => p.mail.packets t.src

/-- The packets a task stands for. -/
def packets (services : NodeId → Service) (t : Task) : List Packet :=
  t.call.elim [t.request] fun number =>
    ((services t.dst).result? number).elim [] fun result => t.answer result.toOption

end Task

/-- The packets in the mailbox of a node. -/
def Service.inMail (id : NodeId) (s : Service) : Multiset Packet :=
  ↑(s.thread.mailbox.flatMap (Mail.packets id))

namespace Deployment

/-- The packets the tasks stand for. -/
def inTasks (s : Deployment) : Multiset Packet := ↑(s.tasks.flatMap (Task.packets s.services))

/-- The packets the requests of failed calls stand for. -/
def inStrays (s : Deployment) : Multiset Packet := ↑(s.strays.map Task.request)

/-- The packets in flight. -/
def inFlight (cfg : Config) (s : Deployment) : Multiset Packet :=
  s.inTasks + s.inStrays + ∑ id ∈ cfg.members.toFinset, (s.services id).inMail id

end Deployment

/-! ### Mailboxes -/

section

variable {id : NodeId} {members : Finset NodeId}

/-- The mailbox of one member, apart from those of the others. -/
theorem exists_inMail_rest (hid : id ∈ members) (services : NodeId → Service) :
    ∃ rest : Multiset Packet,
      ∑ x ∈ members, (services x).inMail x = (services id).inMail id + rest ∧
        ∀ service, ∑ x ∈ members, (Function.update services id service x).inMail x =
          service.inMail id + rest := by
  refine ⟨∑ x ∈ members \ {id}, (services x).inMail x, ?_, fun service => ?_⟩
  · exact Finset.sum_eq_add_sum_sdiff_singleton_of_mem hid _
  · have hupdate : (fun x => (Function.update services id service x).inMail x) =
        Function.update (fun x => (services x).inMail x) id (service.inMail id) :=
      funext fun x => Function.apply_update (fun x s => Service.inMail x s) services id service x
    rw [hupdate, Finset.sum_update_of_mem hid]

end

/-- The packets a call puts into the mailbox of the node `id`. -/
def Rpc.packets (id : NodeId) (rpc : Rpc) : List Packet :=
  rpc.accept.elim (fun _ => []) fun req => (Mail.request req 0).packets id

section

variable {id : NodeId} {rpc : Rpc} {t : Task}

theorem Mail.packets_request (req : Request) (resp : Sender) :
    (Mail.request req resp).packets id = (Mail.request req 0).packets id := by
  cases req <;> rfl

theorem Rpc.packets_of_isApi (h : rpc.IsApi) : rpc.packets id = [] := by
  cases rpc with
  | requestVote | appendEntries => exact h.elim
  | append | read | ping | status => rfl

theorem Task.request_dst (t : Task) : t.request.dst = t.dst := by
  obtain ⟨src, dst, ask, call⟩ := t
  cases ask <;> rfl

theorem Task.request_src (t : Task) : t.request.src = t.src := by
  obtain ⟨src, dst, ask, call⟩ := t
  cases ask <;> rfl

/-- The call of a task under its own name stands for what the task stood for. -/
theorem Task.packets_rpc (h : t.request.Signed) : t.ask.rpc.packets t.dst = [t.request] := by
  obtain ⟨src, dst, ask, call⟩ := t
  cases ask with
  | vote req => exact congrArg (fun src => [Packet.voteReq src dst req]) h
  | entries req => exact congrArg (fun src => [Packet.entriesReq src dst req]) h

end

section

variable {s s' : Service} {out : Outcome} (id : NodeId)

theorem Service.inMail_of_send {thread : Thread} {m : Mail} {asked : List Rpc}
    (hsend : s.thread.next ⟨.send m, {}⟩ thread) :
    ({ s with thread, asked } : Service).inMail id = s.inMail id + ↑(m.packets id) := by
  cases Thread.next_moved hsend with
  | sent =>
      rw [inMail, List.flatMap_append, List.flatMap_cons, List.flatMap_nil, List.append_nil,
        ← Multiset.coe_add]
      rfl

theorem Service.inMail_of_call {rpc : Rpc} (hnext : s.next ⟨.call rpc, out⟩ s') :
    s'.inMail id ≤ s.inMail id + ↑(rpc.packets id) := by
  cases Service.next_moved hnext with
  | settled | down => exact Multiset.le_add_right _ _
  | queued accept send =>
      rw [inMail_of_send id send, Mail.packets_request, Rpc.packets, accept]
      exact le_rfl

theorem Service.inMail_of_post {p : Post} (hnext : s.next ⟨.post p, out⟩ s') :
    s'.inMail id ≤ s.inMail id + ↑(p.mail.packets id) := by
  cases Service.next_moved hnext with
  | posted send => exact (inMail_of_send id send).le
  | ignored => exact Multiset.le_add_right _ _

end

/-! ### Results -/

section

variable {s s' : Service} {e : Event} {number : ℕ}

/-- No call is forgotten. -/
theorem Service.asked_isPrefix (hnext : s.next e s') : s.asked <+: s'.asked := by
  cases Service.next_moved hnext with
  | settled | queued | down => exact List.prefix_append _ _
  | posted | ignored | lapped => exact List.prefix_refl _

/-- A call or a post makes no earlier call return. -/
theorem Service.result?_of_quiet (hnext : s.next e s') (hquiet : ∀ a, e.act ≠ .lap a)
    (hold : number < s.asked.length) : s'.result? number = s.result? number := by
  have hnew : ∀ result, (s.results ++ [(s.asked.length, result)]).lookup number =
      s.results.lookup number := by
    intro result
    have hother : (number == s.asked.length) = false := beq_eq_false_iff_ne.2 hold.ne
    rw [List.lookup_append, List.lookup_cons, hother]
    exact Option.or_none
  cases Service.next_moved hnext with
  | settled | down => exact hnew _
  | queued | posted | ignored => rfl
  | lapped => exact absurd rfl (hquiet _)

/-- What a call returned after a step of the thread. -/
theorem Service.result?_of_lap {a : ThreadAction} {out : Outcome} (number : ℕ)
    (hnext : s.next ⟨.lap a, out⟩ s') :
    s'.result? number =
      (s.result? number).or ((out.replies.filterMap s.returned).lookup number) := by
  cases Service.next_moved hnext with
  | lapped => exact List.lookup_append

/-- A call is added to those that were made. -/
theorem Service.asked_of_call {rpc : Rpc} {out : Outcome} (hnext : s.next ⟨.call rpc, out⟩ s') :
    s'.asked = s.asked ++ [rpc] := by
  cases Service.next_moved hnext with
  | settled | queued | down => rfl

end

/-! ### Tasks -/

section

variable {services : NodeId → Service} {id y : NodeId} {service : Service} {t : Task}

theorem Task.packets_of_sent (hcall : t.call = none) : t.packets services = [t.request] := by
  rw [packets, hcall]
  rfl

theorem Task.packets_of_returned {number : ℕ} {result : RpcResult} (hcall : t.call = some number)
    (hresult : (services t.dst).result? number = some result) :
    t.packets services = t.answer result.toOption := by
  rw [packets, hcall, Option.elim_some, hresult, Option.elim_some]

/-- The tasks that do not wait for a call that returns stand for what they did. -/
theorem Task.packets_update
    (h : t.dst = id → ∀ number, t.call = some number →
      (service.result? number).elim [] (fun result => t.answer result.toOption) =
        ((services id).result? number).elim [] fun result => t.answer result.toOption) :
    t.packets (Function.update services id service) = t.packets services := by
  rw [packets, packets]
  cases hcall : t.call with
  | none => rfl
  | some number =>
      by_cases hdst : t.dst = id
      · have hsame := h hdst number hcall
        subst hdst
        show ((Function.update services t.dst service t.dst).result? number).elim _ _ = _
        rw [Function.update_self]
        exact hsame
      · show ((Function.update services id service t.dst).result? number).elim _ _ = _
        rw [Function.update_of_ne hdst]
        rfl

theorem inTasks_update {tasks : List Task}
    (h : ∀ t ∈ tasks, t.packets (Function.update services id service) = t.packets services) :
    tasks.flatMap (Task.packets (Function.update services id service)) =
      tasks.flatMap (Task.packets services) := by
  rw [List.flatMap_def, List.flatMap_def, List.map_congr_left h]

/-- A call that was made stays made. -/
theorem asked_update {number : ℕ} {rpc : Rpc} (hasked : (services id).asked <+: service.asked)
    (h : (services y).asked[number]? = some rpc) :
    (Function.update services id service y).asked[number]? = some rpc := by
  by_cases hy : y = id
  · obtain rfl := hy
    rw [Function.update_self]
    exact getElem?_of_isPrefix hasked h
  · rwa [Function.update_of_ne hy]

/-- A response that is none of what the task asked for leaves it without a packet. -/
theorem Task.answer_eq_nil {resp : Option RpcResp}
    (hvote : ∀ term granted, resp ≠ some (.vote term granted))
    (hentries : ∀ term success, resp ≠ some (.entries term success)) : t.answer resp = [] := by
  rw [answer]
  cases t.ask with
  | vote req =>
      match resp with
      | none | some (.entries ..) | some (.append _) | some (.read _) | some .ping
        | some (.status ..) => rfl
      | some (.vote term granted) => exact absurd rfl (hvote term granted)
  | entries req =>
      match resp with
      | none | some (.vote ..) | some (.append _) | some (.read _) | some .ping
        | some (.status ..) => rfl
      | some (.entries term success) => exact absurd rfl (hentries term success)

/-- A task whose call failed stands for nothing. -/
theorem Task.answer_none : t.answer none = [] := Task.answer_eq_nil nofun nofun

/-- A task whose call just reached the peer stands for nothing: what it asks is in the mailbox of
the peer, or the call was refused. -/
theorem Task.packets_arrived {out : Outcome}
    (hcall : (services t.dst).next ⟨.call t.ask.rpc, out⟩ service)
    (hnew : (services t.dst).result? (services t.dst).asked.length = none) :
    ({ t with call := some (services t.dst).asked.length } : Task).packets
      (Function.update services t.dst service) = [] := by
  show ((Function.update services t.dst service t.dst).result? _).elim _ _ = _
  rw [Function.update_self]
  cases Service.next_moved hcall with
  | settled accept => cases hask : t.ask <;> exact nomatch hask ▸ accept
  | queued =>
      show ((services t.dst).result? _).elim _ _ = _
      rw [hnew]
      rfl
  | down =>
      rw [Service.result?, List.lookup_append]
      rw [Service.result?] at hnew
      rw [hnew, List.lookup_cons_self]
      exact Task.answer_none

/-- The packets of the tasks of a turn are those the turn sends. -/
theorem Effects.flatMap_tasks (eff : Effects) :
    (eff.tasks id).flatMap (Task.packets services) = eff.packets id := by
  rw [tasks, packets, List.flatMap_append, List.flatMap_map, List.flatMap_map]
  exact congrArg₂ (· ++ ·) List.map_eq_flatMap.symm List.map_eq_flatMap.symm

theorem Effects.request_of_mem_tasks {eff : Effects} (ht : t ∈ eff.tasks id) :
    t.call = none ∧ t.request ∈ eff.packets id := by
  rw [tasks, List.mem_append, List.mem_map, List.mem_map] at ht
  rw [mem_packets]
  rcases ht with ⟨x, hx, rfl⟩ | ⟨x, hx, rfl⟩
  · exact ⟨rfl, Or.inl ⟨x, hx, rfl⟩⟩
  · exact ⟨rfl, Or.inr ⟨x, hx, rfl⟩⟩

end

end Server
end RaftPlayground
