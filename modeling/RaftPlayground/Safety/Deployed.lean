/-
# The deployed system is a cluster

`Cluster` takes a message from the hand of one node to that of another.  The deployed system moves
it through a task, a service, a mailbox, a channel, a service and a task.  `deployment_refines`
says that the first is a faithful picture of the second: every run of the system is matched by a
run of the cluster, whose nodes take the same turns and stand in the same states.

Two things are not the same.  The cluster names the channels of append requests by its own count.
And it may lose the packet of a call that fails: a failed call is reported, which a node may do
nothing about, while its request may still be handled; so the notice is no turn of the cluster.
-/

import RaftPlayground.Safety.Calls
import RaftPlayground.Server.Flight
import RaftPlayground.Server.Rename
import Mathlib.Tactic.Abel

namespace RaftPlayground
namespace Safety

open Protocol Server Deployment

/-- What holds of the tasks of a system. -/
structure Orderly (cfg : Config) (s : Deployment) : Prop where
  routed : ∀ t ∈ s.tasks, t.request.Routed cfg.members
  strays : ∀ t ∈ s.strays, t.request.Routed cfg.members
  calls : ∀ t ∈ s.tasks, ∀ number, t.call = some number →
    (s.services t.dst).asked[number]? = some t.ask.rpc
  apart : s.tasks.Pairwise fun t t' => t.dst = t'.dst → t.call = t'.call → t.call = none

section

variable {cfg : Config} {started : NodeId → ℕ} {h : List (Step Deployment DeploymentEvent)}
  {s s' : Deployment}

/-- Every node of a system keeps its place. -/
theorem placed_of_run (hrun : DeploymentRun cfg started h s) (id : NodeId) :
    (s.services id).thread.node.Placed cfg.members id := by
  obtain ⟨hs, hserve, _⟩ := hrun.exists_serviceRun id
  exact NodeRun.placed hserve.turns_run

/-- What is known of the tasks does not depend on what the services do. -/
theorem Orderly.serve (ho : Orderly cfg s) {id : NodeId} {service : Service}
    (hasked : (s.services id).asked <+: service.asked) :
    Orderly cfg { s with services := Function.update s.services id service } where
  routed := ho.routed
  strays := ho.strays
  calls t ht number hnumber := asked_update hasked (ho.calls t ht number hnumber)
  apart := ho.apart

theorem Orderly.erase (ho : Orderly cfg s) (t : Task) :
    Orderly cfg { s with tasks := s.tasks.erase t } where
  routed t' ht' := ho.routed t' (List.mem_of_mem_erase ht')
  strays := ho.strays
  calls t' ht' := ho.calls t' (List.mem_of_mem_erase ht')
  apart := ho.apart.sublist List.erase_sublist

/-- The requests on their way are those of tasks there were. -/
theorem Orderly.stray (ho : Orderly cfg s) {ts : List Task}
    (hts : ∀ t ∈ ts, t.request.Routed cfg.members) : Orderly cfg { s with strays := ts } where
  routed := ho.routed
  strays := hts
  calls := ho.calls
  apart := ho.apart

/-- A task that goes on leaves no more than its request behind. -/
theorem Orderly.left (ho : Orderly cfg s) {t : Task} (ht : t ∈ s.tasks) :
    ∀ t' ∈ s.strays ++ t.unsent, t'.request.Routed cfg.members := by
  intro t' ht'
  rcases List.mem_append.1 ht' with ht' | ht'
  · exact ho.strays t' ht'
  · obtain ⟨_, ht'⟩ := List.mem_ite_nil_right.1 ht'
    obtain rfl := List.mem_singleton.1 ht'
    exact ho.routed t' ht

/-- A call gets a number of its own when it reaches the peer. -/
theorem Orderly.arrive (ho : Orderly cfg s) {t : Task} {service : Service} (ht : t ∈ s.tasks)
    (hcall : (s.services t.dst).next ⟨.call t.ask.rpc, {}⟩ service) :
    Orderly cfg
      { s with
        services := Function.update s.services t.dst service
        tasks :=
          s.tasks.erase t ++ [{ t with call := some (s.services t.dst).asked.length }] } := by
  have herase := (ho.erase t).serve (Service.asked_isPrefix hcall)
  constructor
  case strays => exact ho.strays
  case routed =>
    intro t' ht'
    rcases List.mem_append.1 ht' with ht' | ht'
    · exact herase.routed t' ht'
    · obtain rfl := List.mem_singleton.1 ht'
      exact ho.routed t ht
  case calls =>
    intro t' ht' number hnumber
    rcases List.mem_append.1 ht' with ht' | ht'
    · exact herase.calls t' ht' number hnumber
    · obtain rfl := List.mem_singleton.1 ht'
      obtain rfl := Option.some.inj hnumber
      show (Function.update s.services t.dst service t.dst).asked[_]? = _
      rw [Function.update_self, Service.asked_of_call hcall]
      exact List.getElem?_concat_length
  case apart =>
    refine List.pairwise_append.2 ⟨herase.apart, List.pairwise_singleton _ _, ?_⟩
    intro u hu v hv hdst hsame
    obtain rfl := List.mem_singleton.1 hv
    -- the number was not given before
    have hlt := (List.getElem?_eq_some_iff.1
      (ho.calls u (List.mem_of_mem_erase hu) _ hsame)).1
    rw [hdst] at hlt
    exact absurd hlt (lt_irrefl _)

/-- A turn spawns tasks for its peers. -/
theorem Orderly.spawn (ho : Orderly cfg s) {ts : List Task} {clock : ℕ}
    (hrouted : ∀ t ∈ ts, t.request.Routed cfg.members) (hcall : ∀ t ∈ ts, t.call = none) :
    Orderly cfg { s with tasks := s.tasks ++ ts, clock } where
  routed t ht := (List.mem_append.1 ht).elim (ho.routed t) (hrouted t)
  strays := ho.strays
  calls t ht number hnumber := (List.mem_append.1 ht).elim
    (fun ht => ho.calls t ht number hnumber)
    fun ht => absurd (hnumber.symm.trans (hcall t ht)) (Option.some_ne_none _)
  apart := by
    refine List.pairwise_append.2 ⟨ho.apart, ?_, fun u _ v hv _ hsame => hsame.trans (hcall v hv)⟩
    exact List.pairwise_of_forall_mem_list fun u hu _ _ _ _ => hcall u hu

/-- **In every run of the system its tasks are orderly.** -/
theorem orderly_of_run (hrun : DeploymentRun cfg started h s) : Orderly cfg s := by
  refine Run.invariant (fun _ => True) (fun _ s => Orderly cfg s) ?_ ?_ hrun fun _ _ => trivial
  · exact ⟨fun _ ht => absurd ht List.not_mem_nil, fun _ ht => absurd ht List.not_mem_nil,
      fun _ ht => absurd ht List.not_mem_nil, List.Pairwise.nil⟩
  · intro h s e s' hrun ho hnext _
    cases Deployment.next_moved hnext with
    | called _ _ call => exact ho.serve (Service.asked_isPrefix call)
    | told _ post => exact ho.serve (Service.asked_isPrefix post)
    | arrived mem _ call => exact ho.arrive mem call
    | silenced mem => exact (ho.erase _).stray (ho.left mem)
    | posted mem _ _ post =>
        exact ((ho.erase _).stray (ho.left mem)).serve (Service.asked_isPrefix post)
    | strayed _ call =>
        exact (ho.stray fun t ht => ho.strays t (List.mem_of_mem_erase ht)).serve
          (Service.asked_isPrefix call)
    | @lapped id a service out member lap =>
        refine (ho.serve (Service.asked_isPrefix lap)).spawn ?_ ?_
        · intro t ht
          rcases Service.turn_of_lap lap with ⟨hnone, _⟩ | ⟨turn, hsome, hturn, _⟩
          · rw [Outcome.tasks, hnone] at ht
            exact absurd ht List.not_mem_nil
          · rw [Outcome.tasks, hsome] at ht
            exact (Node.handle_turned hturn).routed (placed_of_run hrun id) member
              (Effects.request_of_mem_tasks ht).2
        · intro t ht
          cases hturn : out.turn with
          | none =>
              rw [Outcome.tasks, hturn] at ht
              exact absurd ht List.not_mem_nil
          | some turn =>
              rw [Outcome.tasks, hturn] at ht
              exact (Effects.request_of_mem_tasks ht).1

end

/-! ### What is in flight -/

section

variable {cfg : Config} {started : NodeId → ℕ} {h : List (Step Deployment DeploymentEvent)}
  {s s' : Deployment} {id : NodeId} {service : Service} {t : Task}

/-- A call or a post changes nothing for the tasks. -/
theorem Orderly.inTasks_quiet (ho : Orderly cfg s) {e : Event}
    (hnext : (s.services id).next e service) (hquiet : ∀ a, e.act ≠ .lap a) {ts : List Task}
    (hts : ts ⊆ s.tasks) :
    ts.flatMap (Task.packets (Function.update s.services id service)) =
      ts.flatMap (Task.packets s.services) := by
  refine inTasks_update fun t ht => Task.packets_update fun hdst number hnumber => ?_
  have hold := (List.getElem?_eq_some_iff.1 (ho.calls t (hts ht) number hnumber)).1
  rw [Service.result?_of_quiet hnext hquiet (hdst ▸ hold)]

/-- The packets of a task, and those of the others. -/
theorem inTasks_erase (ht : t ∈ s.tasks) :
    s.inTasks =
      ↑(t.packets s.services) + ↑((s.tasks.erase t).flatMap (Task.packets s.services)) := by
  rw [inTasks, Multiset.coe_add, ← List.flatMap_cons]
  exact Multiset.coe_eq_coe.2 ((List.perm_cons_erase ht).flatMap_right _)

/-- The number of a call that comes next has no result. -/
theorem result?_length (hrun : DeploymentRun cfg started h s) (id : NodeId) :
    (s.services id).result? (s.services id).asked.length = none := by
  obtain ⟨hs, hserve, _⟩ := hrun.exists_serviceRun id
  rw [Service.result?, List.lookup_eq_none_iff]
  intro x hx
  obtain ⟨rpc, hrpc, _⟩ := (accounted_of_run hserve).answered x hx
  exact bne_iff_ne.2 (List.getElem?_eq_some_iff.1 hrpc).1.ne'

/-- Where the tasks, the strays and one mailbox change, what else is in flight does not matter. -/
theorem inFlight_le {ts strays : List Task} {clock : ℕ} {gone new : Multiset Packet}
    (hid : id ∈ cfg.members)
    (hle : gone + (↑(ts.flatMap (Task.packets (Function.update s.services id service))) +
      ↑(strays.map Task.request) + service.inMail id) ≤
        s.inTasks + s.inStrays + (s.services id).inMail id + new) :
    gone + ({ services := Function.update s.services id service, tasks := ts, strays, clock } :
      Deployment).inFlight cfg ≤ s.inFlight cfg + new := by
  obtain ⟨rest, hbefore, hafter⟩ := exists_inMail_rest (List.mem_toFinset.2 hid) s.services
  rw [inFlight, inFlight, hbefore, hafter, inTasks, inStrays]
  calc gone + (_ + (service.inMail id + rest))
      = gone + (_ + service.inMail id) + rest := by rw [← add_assoc _ _ rest, ← add_assoc gone]
    _ ≤ s.inTasks + s.inStrays + (s.services id).inMail id + new + rest := add_le_add_left hle rest
    _ = s.inTasks + s.inStrays + ((s.services id).inMail id + rest) + new := by
        rw [add_right_comm, add_assoc (s.inTasks + s.inStrays)]

/-- Where the strays stay as they are, they do not matter either. -/
theorem inFlight_le_of_tasks {ts : List Task} {clock : ℕ} {gone new : Multiset Packet}
    (hid : id ∈ cfg.members)
    (hle : gone + (↑(ts.flatMap (Task.packets (Function.update s.services id service))) +
      service.inMail id) ≤ s.inTasks + (s.services id).inMail id + new) :
    gone + ({ services := Function.update s.services id service, tasks := ts,
              strays := s.strays, clock } : Deployment).inFlight cfg ≤ s.inFlight cfg + new := by
  refine inFlight_le hid ?_
  calc gone + (_ + s.inStrays + service.inMail id)
      = gone + (_ + service.inMail id) + s.inStrays := by rw [add_right_comm, ← add_assoc gone]
    _ ≤ s.inTasks + (s.services id).inMail id + new + s.inStrays := add_le_add_left hle _
    _ = s.inTasks + s.inStrays + (s.services id).inMail id + new := by abel

/-- A mailbox is in flight. -/
theorem inMail_le (hid : id ∈ cfg.members) : (s.services id).inMail id ≤ s.inFlight cfg := by
  obtain ⟨rest, hbefore, _⟩ := exists_inMail_rest (List.mem_toFinset.2 hid) s.services
  rw [inFlight, hbefore]
  exact (Multiset.le_add_right _ _).trans (Multiset.le_add_left _ _)

/-- What moves from a task to a mailbox is still in flight. -/
theorem add_le_of_moved {others mail mail' moved task : Multiset Packet}
    (hmail : mail' ≤ mail + moved) (htask : moved ≤ task) :
    others + mail' ≤ task + others + mail := by
  calc others + mail' ≤ others + (mail + task) :=
        add_le_add le_rfl (hmail.trans (add_le_add le_rfl htask))
    _ = task + others + mail := by rw [add_comm mail, ← add_assoc, add_comm others]

/-- What a task posts and leaves behind is what it stood for. -/
theorem answer_add_unsent_le {resp : Option RpcResp} {a : DeploymentAction}
    (hgets : s.Gets t resp a) :
    (↑(t.answer resp) : Multiset Packet) + ↑(t.unsent.map Task.request) ≤
      ↑(t.packets s.services) := by
  cases a with
  | finish t' =>
      obtain ⟨-, number, result, hcall, hresult, rfl⟩ := hgets
      have hnothing : t.unsent = [] := if_neg (hcall ▸ Option.some_ne_none _)
      rw [Task.packets_of_returned hcall hresult, hnothing, List.map_nil, Multiset.coe_nil,
        add_zero]
  | fail t' =>
      obtain ⟨-, rfl⟩ := hgets
      rw [Task.answer_none, Multiset.coe_nil, zero_add, Task.unsent]
      split_ifs with hcall
      · rw [Task.packets_of_sent hcall]
        rfl
      · exact Multiset.zero_le _
  | call | shutdown | arrive | stray | lap => exact hgets.elim

/-- What moves from a task to a mailbox or stays behind is still in flight. -/
theorem add_le_of_left {others mail mail' moved left strays task : Multiset Packet}
    (hmail : mail' ≤ mail + moved) (htask : moved + left ≤ task) :
    others + (strays + left) + mail' ≤ task + others + strays + mail := by
  calc others + (strays + left) + mail'
      ≤ others + (strays + left) + (mail + moved) := add_le_add le_rfl hmail
    _ = others + strays + mail + (moved + left) := by abel
    _ ≤ others + strays + mail + task := add_le_add le_rfl htask
    _ = task + others + strays + mail := by abel

/-- **A step of no thread** moves what is in flight, or drops some of it. -/
theorem inFlight_of_quiet (hrun : DeploymentRun cfg started h s) {e : DeploymentEvent}
    (hnext : s.next cfg e s') (hquiet : ∀ id a, e.act ≠ .lap id a) :
    s'.inFlight cfg ≤ s.inFlight cfg := by
  have ho := orderly_of_run hrun
  have hcall : ∀ rpc a, ServiceAction.call rpc ≠ .lap a := fun _ _ => ServiceAction.noConfusion
  have hpost : ∀ p a, ServiceAction.post p ≠ .lap a := fun _ _ => ServiceAction.noConfusion
  have hnothing : ∀ {s' : Deployment}, 0 + s'.inFlight cfg ≤ s.inFlight cfg + 0 →
      s'.inFlight cfg ≤ s.inFlight cfg := fun hle => by rwa [zero_add, add_zero] at hle
  cases Deployment.next_moved hnext with
  | @called id rpc service member api call =>
      have hmail := Service.inMail_of_call id call
      rw [Rpc.packets_of_isApi api, Multiset.coe_nil, add_zero] at hmail
      refine hnothing (inFlight_le_of_tasks member ?_)
      rw [ho.inTasks_quiet call (hcall _) (List.Subset.refl _), zero_add, add_zero]
      exact add_le_add le_rfl hmail
  | @told id service member post =>
      have hmail := Service.inMail_of_post id post
      rw [show Post.shutdown.mail.packets id = [] from rfl, Multiset.coe_nil, add_zero] at hmail
      refine hnothing (inFlight_le_of_tasks member ?_)
      rw [ho.inTasks_quiet post (hpost _) (List.Subset.refl _), zero_add, add_zero]
      exact add_le_add le_rfl hmail
  | @arrived t service mem sent call =>
      have hrouted := ho.routed t mem
      have hdst : t.dst ∈ cfg.members := t.request_dst ▸ hrouted.dst_mem
      have hmail := Service.inMail_of_call t.dst call
      rw [Task.packets_rpc hrouted.signed] at hmail
      refine hnothing (inFlight_le_of_tasks hdst ?_)
      rw [List.flatMap_append, ho.inTasks_quiet call (hcall _) List.erase_subset, List.flatMap_cons,
        Task.packets_arrived call (result?_length hrun _), List.flatMap_nil, List.append_nil,
        List.append_nil, zero_add, add_zero, inTasks_erase mem, Task.packets_of_sent sent]
      exact add_le_of_moved hmail le_rfl
  | @silenced t resp a mem gets none =>
      have hleft := (Multiset.le_add_left _ _).trans (answer_add_unsent_le gets)
      rw [inFlight, inFlight, inTasks_erase mem, inStrays, List.map_append, ← Multiset.coe_add]
      refine add_le_add ?_ le_rfl
      calc _ = ↑((s.tasks.erase t).flatMap (Task.packets s.services)) + s.inStrays +
            ↑(t.unsent.map Task.request) := (add_assoc _ _ _).symm
        _ ≤ ↑((s.tasks.erase t).flatMap (Task.packets s.services)) + s.inStrays +
            ↑(t.packets s.services) := add_le_add le_rfl hleft
        _ = _ := by abel
  | @posted t resp a p service mem gets some post =>
      have hrouted := ho.routed t mem
      have hsrc : t.src ∈ cfg.members := t.request_src ▸ hrouted.src_mem
      have hmail := Service.inMail_of_post t.src post
      have hanswer : t.answer resp = p.mail.packets t.src := by rw [Task.answer, some]; rfl
      refine hnothing (inFlight_le hsrc ?_)
      rw [ho.inTasks_quiet post (hpost _) List.erase_subset, zero_add, add_zero, inTasks_erase mem,
        List.map_append, ← Multiset.coe_add]
      exact add_le_of_left hmail (hanswer ▸ answer_add_unsent_le gets)
  | @strayed t service mem call =>
      have hrouted := ho.strays t mem
      have hdst : t.dst ∈ cfg.members := t.request_dst ▸ hrouted.dst_mem
      have hmail := Service.inMail_of_call t.dst call
      rw [Task.packets_rpc hrouted.signed] at hmail
      have hstrays : s.inStrays = ↑[t.request] + ↑((s.strays.erase t).map Task.request) :=
        Multiset.coe_eq_coe.2 ((List.perm_cons_erase mem).map _)
      refine hnothing (inFlight_le hdst ?_)
      rw [ho.inTasks_quiet call (hcall _) (List.Subset.refl _), zero_add, add_zero, hstrays]
      calc _ ≤ s.inTasks + ↑((s.strays.erase t).map Task.request) +
            ((s.services t.dst).inMail t.dst + ↑[t.request]) := add_le_add le_rfl hmail
        _ = _ := by abel
  | lapped => exact absurd rfl (hquiet _ _)

/-- A notice that a call failed. -/
def IsNotice : Input → Prop
  | .msg (.appendEntriesResp _ _ none) => True
  | _ => False

instance : DecidablePred IsNotice
  | .msg (.appendEntriesResp _ _ none) => isTrue trivial
  | .tick | .msg (.requestVote ..) | .msg (.appendEntries ..) | .msg (.voteReceived ..)
  | .msg (.appendEntriesResp _ _ (some _)) | .msg (.appendStream ..) | .msg (.readStream _)
  | .msg .status => isFalse not_false

/-- The packets the turn with an input consumes at the node `id`. -/
inductive Consumes (id : NodeId) : Input → List Packet → Prop
  | tick : Consumes id .tick []
  | client (req : ClientReq) (resp : Sender) : Consumes id (.msg (req.msg resp)) []
  | notice (peer : NodeId) (batchEnd : Option ℕ) :
      Consumes id (.msg (.appendEntriesResp peer batchEnd none)) []
  | packet (p : Packet) (dst : p.dst = id) (answered : ¬ IsNotice (.msg p.msg)) :
      Consumes id (.msg p.msg) [p]

theorem consumes_packets {m : Mail} {msg : Msg} (his : m.msg? = some msg) (id : NodeId) :
    Consumes id (.msg msg) (m.packets id) := by
  cases m with
  | request req resp =>
      obtain rfl := Option.some.inj his
      cases req with
      | requestVote term cand lli llt =>
          exact .packet (.voteReq cand id ⟨cand, term, lli, llt⟩) rfl not_false
      | appendEntries term leader prev prevTerm commit es =>
          exact .packet (.entriesReq leader id ⟨leader, term, prev, prevTerm, commit, es⟩) rfl
            not_false
      | client req => exact .client req resp
  | voteReceived peer term granted =>
      obtain rfl := Option.some.inj his
      exact .packet (.voteResp peer id term granted) rfl not_false
  | appendEntriesResp peer batchEnd resp =>
      obtain rfl := Option.some.inj his
      cases resp with
      | none => exact .notice peer batchEnd
      | some resp => exact .packet (.entriesResp peer id batchEnd (some resp)) rfl not_false
  | shutdown => exact nomatch his

/-- A reply to a call of the service `Raft`. -/
def IsRaft : Reply → Prop
  | .vote .. | .entries .. => True
  | .append _ | .read _ | .status _ | .dropped => False

/-- A reply that no task waits for gives it nothing. -/
theorem answer_of_not_isRaft {reply : Reply} (h : ¬ IsRaft reply) (req : Request) :
    t.answer (req.result reply).toOption = [] := by
  cases reply with
  | vote | entries => exact absurd trivial h
  | append position => cases position <;> exact Task.answer_eq_nil nofun nofun
  | read batch => cases batch <;> exact Task.answer_eq_nil nofun nofun
  | status | dropped => exact Task.answer_eq_nil nofun nofun

/-- **A step whose replies are those to clients** changes nothing for the tasks. -/
theorem inTasks_of_clients {a : ThreadAction} {out : Outcome}
    (hlap : (s.services id).next ⟨.lap a, out⟩ service)
    (hclients : ∀ x ∈ out.replies, ¬ IsRaft x.2) :
    s.tasks.flatMap (Task.packets (Function.update s.services id service)) =
      s.tasks.flatMap (Task.packets s.services) := by
  refine inTasks_update fun t _ => Task.packets_update fun hdst number hnumber => ?_
  rw [Service.result?_of_lap _ hlap]
  cases (s.services id).result? number with
  | some result => rfl
  | none =>
      rw [Option.none_or, Option.elim_none]
      cases hnew : (out.replies.filterMap (s.services id).returned).lookup number with
      | none => rfl
      | some result =>
          obtain ⟨l, l', hsplit, _⟩ := List.lookup_eq_some_iff.1 hnew
          have hmem : (number, result) ∈ out.replies.filterMap (s.services id).returned :=
            hsplit ▸ List.mem_append_right _ List.mem_cons_self
          obtain ⟨x, hx, hreturned⟩ := List.mem_filterMap.1 hmem
          obtain ⟨rpc, _, hreturned⟩ := Option.bind_eq_some_iff.1 hreturned
          obtain ⟨req, _, hreturned⟩ := Option.bind_eq_some_iff.1 hreturned
          obtain ⟨-, rfl⟩ := Prod.mk.inj (Option.some.inj hreturned)
          exact answer_of_not_isRaft (hclients x hx) req

/-- **A step with one reply** concerns the one task that waits for it. -/
theorem inTasks_of_reply (ho : Orderly cfg s) {a : ThreadAction} {out : Outcome} {number : ℕ}
    {result : RpcResult} {answer : List Packet}
    (hlap : (s.services id).next ⟨.lap a, out⟩ service)
    (hnew : out.replies.filterMap (s.services id).returned = [(number, result)])
    (hanswer : ∀ t ∈ s.tasks, t.dst = id → t.call = some number →
      t.answer result.toOption = answer) :
    (↑(s.tasks.flatMap (Task.packets (Function.update s.services id service))) :
      Multiset Packet) ≤ s.inTasks + ↑answer := by
  have hothers : ∀ {ts : List Server.Task}, (∀ t ∈ ts, ¬ (t.dst = id ∧ t.call = some number)) →
      ts.flatMap (Task.packets (Function.update s.services id service)) =
        ts.flatMap (Task.packets s.services) := by
    intro ts hts
    refine inTasks_update fun t ht => Task.packets_update fun hdst number' hnumber => ?_
    have hne : (number' == number) = false := by
      rw [beq_eq_false_iff_ne]
      rintro rfl
      exact hts t ht ⟨hdst, hnumber⟩
    rw [Service.result?_of_lap _ hlap, hnew, List.lookup_cons, hne]
    exact congrArg (fun result => Option.elim result [] _) Option.or_none
  by_cases hwaits : ∃ t ∈ s.tasks, t.dst = id ∧ t.call = some number
  · obtain ⟨t, ht, hdst, hnumber⟩ := hwaits
    have hapart := (List.Perm.pairwise_iff (fun hR hdst hsame =>
      hsame.trans (hR hdst.symm hsame.symm)) (List.perm_cons_erase ht)).1 ho.apart
    have hrest := hothers fun u hu ⟨hudst, hunumber⟩ =>
      absurd (hnumber.symm.trans ((List.pairwise_cons.1 hapart).1 u hu (hdst.trans hudst.symm)
        (hnumber.trans hunumber.symm))) (Option.some_ne_none _)
    have hone : (↑(t.packets (Function.update s.services id service)) : Multiset Packet) ≤
        ↑(t.packets s.services) + ↑answer := by
      have hlookup := Service.result?_of_lap number hlap
      rw [hnew, List.lookup_cons_self] at hlookup
      subst hdst
      rw [Task.packets, Task.packets, hnumber, Option.elim_some, Option.elim_some,
        Function.update_self, hlookup]
      cases (s.services t.dst).result? number with
      | none =>
          rw [Option.none_or, Option.elim_some, hanswer t ht rfl hnumber]
          exact Multiset.le_add_left _ _
      | some result' => exact Multiset.le_add_right _ _
    have hperm : (s.tasks.flatMap (Task.packets (Function.update s.services id service))).Perm
        ((t :: s.tasks.erase t).flatMap (Task.packets (Function.update s.services id service))) :=
      (List.perm_cons_erase ht).flatMap_right _
    rw [inTasks_erase ht, Multiset.coe_eq_coe.2 hperm, List.flatMap_cons, hrest,
      ← Multiset.coe_add, add_right_comm]
    exact add_le_add hone le_rfl
  · rw [hothers fun t ht hboth => hwaits ⟨t, ht, hboth⟩]
    exact Multiset.le_add_right _ _

/-- A handled call of a peer is replied to at once, and nobody else is answered. -/
theorem reply_of_handle {req : Request} {resp : Sender} {env : Env} {n n' : Node} {eff : Effects}
    (hraft : ∀ req', req ≠ .client req')
    (hhandle : n.handle env (.msg (req.msg resp)) = some (n', eff)) :
    ∃ reply, (Mail.request req resp).replies eff = [(resp, reply)] ∧
      ∀ t : Server.Task, t.request.Signed → t.ask.rpc = rpcOf req →
        t.answer (req.result reply).toOption =
          ((Mail.request req resp).packets t.dst).flatMap (Packet.answer eff) := by
  cases req with
  | requestVote term cand lli llt =>
      obtain ⟨_, rfl⟩ := Prod.mk.inj (Option.some.inj hhandle)
      refine ⟨_, rfl, fun t hsigned hrpc => ?_⟩
      obtain ⟨src, dst, ask, call⟩ := t
      cases ask with
      | entries => exact nomatch hrpc
      | vote req =>
          obtain ⟨rfl, hcand, rfl, rfl⟩ := Rpc.requestVote.inj hrpc
          obtain rfl := (Option.some.inj hcand).symm.trans hsigned
          rfl
  | appendEntries term leader prev prevTerm commit es =>
      obtain ⟨⟨_, result⟩, _, heq⟩ := Option.bind_eq_some_iff.1 hhandle
      obtain ⟨_, rfl⟩ := Prod.mk.inj (Option.some.inj heq)
      refine ⟨_, rfl, fun t hsigned hrpc => ?_⟩
      obtain ⟨src, dst, ask, call⟩ := t
      cases ask with
      | vote => exact nomatch hrpc
      | entries req =>
          obtain ⟨rfl, hleader, rfl, rfl, rfl, rfl⟩ := Rpc.appendEntries.inj hrpc
          obtain rfl := (Option.some.inj hleader).symm.trans hsigned
          rfl
  | client req => exact absurd rfl (hraft req)

/-- A thread that ends sends nobody a reply of the node. -/
theorem not_isRaft_of_exit {thread : Thread} {done : ℕ} :
    ∀ x ∈ (thread.exit done).2.replies, ¬ IsRaft x.2 := by
  intro x hx
  obtain ⟨_, _, rfl⟩ := List.mem_map.1 hx
  exact id

/-- Appends that are answered are calls of clients. -/
theorem not_isRaft_of_answers {answers : List (Sender × Option ℕ)} :
    ∀ x ∈ answers.map fun a => (a.1, Reply.append a.2), ¬ IsRaft x.2 := by
  intro x hx
  obtain ⟨_, _, rfl⟩ := List.mem_map.1 hx
  exact id

/-- Mails that are no call of a peer are replied to for clients alone. -/
theorem not_isRaft_of_mail {m : Mail} {eff : Effects}
    (hm : ¬ ∃ req resp, m = .request req resp ∧ ∀ req', req ≠ .client req') :
    ∀ x ∈ m.replies eff, ¬ IsRaft x.2 := by
  intro x hx
  rcases List.mem_append.1 hx with hx | hx
  · match m with
    | .request (.requestVote ..) resp | .request (.appendEntries ..) resp =>
        exact absurd ⟨_, resp, rfl, nofun⟩ hm
    | .request (.client (.append ..)) _ | .voteReceived .. | .appendEntriesResp .. | .shutdown =>
        exact absurd hx List.not_mem_nil
    | .request (.client (.read _)) _ | .request (.client .status) _ =>
        obtain ⟨_, _, rfl⟩ := List.mem_map.1 hx
        exact id
  · exact not_isRaft_of_answers x hx

/-- **A step of a thread** consumes what its turn consumes, and puts into flight what the turn
sends; without a turn, it drops some. -/
theorem inFlight_of_lap (hrun : DeploymentRun cfg started h s) (hid : id ∈ cfg.members)
    {a : ThreadAction} {out : Outcome} (clock : ℕ)
    (hlap : (s.services id).next ⟨.lap a, out⟩ service) :
    let s' : Deployment :=
      { services := Function.update s.services id service
        tasks := s.tasks ++ out.tasks id
        strays := s.strays
        clock }
    (out.turn = none ∧ s'.inFlight cfg ≤ s.inFlight cfg) ∨
      ∃ t consumed, out.turn = some t ∧ Consumes id t.input consumed ∧
        ↑consumed ≤ s.inFlight cfg ∧
        ↑consumed + s'.inFlight cfg ≤ s.inFlight cfg +
          ↑(consumed.flatMap (Packet.answer t.effects) ++ t.effects.packets id) := by
  intro s'
  -- a step that takes no turn
  have hidle : (∀ x ∈ out.replies, ¬ IsRaft x.2) → out.turn = none →
      service.inMail id ≤ (s.services id).inMail id → s'.inFlight cfg ≤ s.inFlight cfg := by
    intro hclients hturn hmail
    have hle : 0 + s'.inFlight cfg ≤ s.inFlight cfg + 0 := by
      refine inFlight_le_of_tasks hid ?_
      rw [Outcome.tasks, hturn, Option.elim_none, List.append_nil, inTasks_of_clients hlap hclients,
        zero_add, add_zero]
      exact add_le_add le_rfl hmail
    rwa [zero_add, add_zero] at hle
  -- a step that takes one
  have hturned : ∀ (t : Turn) (consumed : List Packet), out.turn = some t →
      ↑consumed + service.inMail id = (s.services id).inMail id →
      (↑(s.tasks.flatMap (Task.packets s'.services)) : Multiset Packet) ≤
        s.inTasks + ↑(consumed.flatMap (Packet.answer t.effects)) →
      ↑consumed ≤ s.inFlight cfg ∧ ↑consumed + s'.inFlight cfg ≤ s.inFlight cfg +
        ↑(consumed.flatMap (Packet.answer t.effects) ++ t.effects.packets id) := by
    intro t consumed hturn hmail htasks
    refine ⟨(hmail ▸ Multiset.le_add_right _ _).trans (inMail_le hid),
      inFlight_le_of_tasks hid ?_⟩
    rw [Outcome.tasks, hturn, Option.elim_some, List.flatMap_append, Effects.flatMap_tasks,
      ← hmail, ← Multiset.coe_add, ← Multiset.coe_add]
    calc _ = ↑(s.tasks.flatMap (Task.packets s'.services)) +
          (↑consumed + ↑(t.effects.packets id) + service.inMail id) := by abel
      _ ≤ s.inTasks + ↑(consumed.flatMap (Packet.answer t.effects)) +
          (↑consumed + ↑(t.effects.packets id) + service.inMail id) := add_le_add htasks le_rfl
      _ = _ := by abel
  -- a step that takes one and replies to clients alone
  have hserved : ∀ (t : Turn) (consumed : List Packet), out.turn = some t →
      (∀ x ∈ out.replies, ¬ IsRaft x.2) →
      ↑consumed + service.inMail id = (s.services id).inMail id →
      ↑consumed ≤ s.inFlight cfg ∧ ↑consumed + s'.inFlight cfg ≤ s.inFlight cfg +
        ↑(consumed.flatMap (Packet.answer t.effects) ++ t.effects.packets id) := by
    intro t consumed hturn hclients hmail
    refine hturned t consumed hturn hmail ?_
    rw [show s'.services = Function.update s.services id service from rfl,
      inTasks_of_clients hlap hclients]
    exact Multiset.le_add_right _ _
  cases Service.next_moved hlap with
  | lapped own lap =>
      cases Thread.next_moved lap with
      | sent => exact absurd rfl (own _)
      | passed => exact Or.inl ⟨rfl, hidle (fun _ hx => absurd hx List.not_mem_nil) rfl le_rfl⟩
      | checked =>
          exact Or.inr ⟨_, [], rfl, .tick, hserved _ _ rfl not_isRaft_of_answers (zero_add _)⟩
      | timedOut _ empty =>
          refine Or.inr ⟨_, [], rfl, .tick, hserved _ _ rfl not_isRaft_of_answers ?_⟩
          rw [Service.inMail, Service.inMail, empty]
          rfl
      | stopped =>
          exact Or.inl ⟨rfl, hidle not_isRaft_of_exit rfl (Multiset.zero_le _)⟩
      | disconnected =>
          exact Or.inl ⟨rfl, hidle not_isRaft_of_exit rfl (Multiset.zero_le _)⟩
      | @handled env done m rest msg n eff _ mail _ _ _ is handle =>
          refine Or.inr ⟨_, m.packets id, rfl, consumes_packets is id, ?_⟩
          have hmail : (↑(m.packets id) : Multiset Packet) +
              ↑(rest.flatMap (Mail.packets id)) = (s.services id).inMail id := by
            rw [Service.inMail, mail, List.flatMap_cons, ← Multiset.coe_add]
          by_cases hraft : ∃ req resp, m = .request req resp ∧ ∀ req', req ≠ .client req'
          · obtain ⟨req, resp, rfl, hreq⟩ := hraft
            obtain rfl := Option.some.inj is
            obtain ⟨hs, hserve, _⟩ := hrun.exists_serviceRun id
            obtain ⟨rpc, hrpc, haccept⟩ :=
              (accounted_of_run hserve).mail req resp (mail ▸ List.mem_cons_self)
            obtain rfl := eq_rpcOf haccept
            obtain ⟨reply, hreplies, hanswer⟩ := reply_of_handle hreq handle
            have ho := orderly_of_run hrun
            have hnew : ((Mail.request req resp).replies eff).filterMap (s.services id).returned =
                [(resp, req.result reply)] := by
              rw [hreplies, List.filterMap_cons_some (returned_of_accept hrpc haccept)]
              rfl
            refine hturned _ _ rfl hmail (inTasks_of_reply ho hlap hnew ?_)
            rintro t ht rfl hnumber
            have hasked := (ho.calls t ht resp hnumber).symm.trans hrpc
            exact hanswer t (ho.routed t ht).signed (Option.some.inj hasked)
          · exact hserved _ _ rfl (not_isRaft_of_mail hraft) hmail

end

/-! ### The refinement -/

/-- The cluster, after its history, stands where the system does after its own: its nodes took the
turns of the system, but for the notices of failed calls, and it has in flight at least what the
system has. -/
structure Refines (cfg : Config) (h : List (Step Deployment DeploymentEvent)) (s : Deployment)
    (h' : List (Step Cluster Action)) (c : Cluster) : Prop where
  nodes : ∀ id, (c.nodes id).anonymous = (s.services id).thread.node.anonymous
  turns : ∀ id, (Cluster.turns id h').map anonymous =
    ((Deployment.turns id h).filter fun t => ¬ IsNotice t.act.input).map anonymous
  flight : s.inFlight cfg ≤ ↑c.net
  clock : c.clock ≤ s.clock

section

variable {cfg : Config} {started : NodeId → ℕ} {h : List (Step Deployment DeploymentEvent)}
  {s s' : Deployment} {h' : List (Step Cluster Action)} {c c' : Cluster} {e : DeploymentEvent}

/-- A turn of the system that is no notice is one of the cluster. -/
theorem Refines.exists_turn (hR : Refines cfg h s h' c) {id : NodeId} {t : Step Node Turn}
    (ht : t ∈ Deployment.turns id h) (hnotice : ¬ IsNotice t.act.input) :
    ∃ t' ∈ Cluster.turns id h', anonymous t' = anonymous t := by
  have hmem : anonymous t ∈ (Cluster.turns id h').map anonymous := by
    rw [hR.turns id]
    exact List.mem_map_of_mem (List.mem_filter.2 ⟨ht, decide_eq_true hnotice⟩)
  exact List.mem_map.1 hmem

/-- A turn of the cluster is one of the system. -/
theorem Refines.exists_turn' (hR : Refines cfg h s h' c) {id : NodeId} {t' : Step Node Turn}
    (ht' : t' ∈ Cluster.turns id h') :
    ∃ t ∈ Deployment.turns id h, anonymous t = anonymous t' := by
  have hmem : anonymous t' ∈ (Cluster.turns id h').map anonymous := List.mem_map_of_mem ht'
  rw [hR.turns id] at hmem
  obtain ⟨t, ht, hsame⟩ := List.mem_map.1 hmem
  exact ⟨t, (List.mem_filter.1 ht).1, hsame⟩

/-- **A step without a turn** is none of the cluster. -/
theorem Refines.idle (hR : Refines cfg h s h' c)
    (hnodes : ∀ id, (s'.services id).thread.node = (s.services id).thread.node)
    (hturns : ∀ id, Deployment.turnOf id ⟨s, e, s'⟩ = none)
    (hflight : s'.inFlight cfg ≤ s.inFlight cfg) (hclock : s.clock ≤ s'.clock) :
    Refines cfg (⟨s, e, s'⟩ :: h) s' h' c where
  nodes id := (hR.nodes id).trans (congrArg Node.anonymous (hnodes id).symm)
  turns id := by
    rw [hR.turns id, Deployment.turns, Deployment.turns, List.filterMap_cons_none (hturns id)]
  flight := hflight.trans hR.flight
  clock := hR.clock.trans hclock

/-- A step of no thread leaves the nodes alone. -/
theorem quiet_of_next (hnext : s.next cfg e s') (hquiet : ∀ id a, e.act ≠ .lap id a) (id : NodeId) :
    (s'.services id).thread.node = (s.services id).thread.node ∧
      Deployment.turnOf id ⟨s, e, s'⟩ = none ∧ s'.clock = s.clock := by
  have hserve : ∀ {x : NodeId} {e' : Event} {service : Service},
      (s.services x).next e' service → (∀ a, e'.act ≠ .lap a) →
      (Function.update s.services x service id).thread.node = (s.services id).thread.node := by
    intro x e' service hserve hown
    by_cases hx : id = x
    · obtain rfl := hx
      rw [Function.update_self]
      cases Service.next_moved hserve with
      | settled | down | ignored => rfl
      | queued _ send | posted send => cases Thread.next_moved send with | sent => rfl
      | lapped => exact absurd rfl (hown _)
    · rw [Function.update_of_ne hx]
  cases Deployment.next_moved hnext with
  | called _ _ call => exact ⟨hserve call nofun, rfl, rfl⟩
  | told _ post => exact ⟨hserve post nofun, rfl, rfl⟩
  | arrived _ _ call => exact ⟨hserve call nofun, rfl, rfl⟩
  | silenced _ gets => exact ⟨rfl, turnOf_of_gets gets, rfl⟩
  | posted _ gets _ post => exact ⟨hserve post nofun, turnOf_of_gets gets, rfl⟩
  | strayed _ call => exact ⟨hserve call nofun, rfl, rfl⟩
  | lapped => exact absurd rfl (hquiet _ _)

variable {id : NodeId} {service : Service} {a : ThreadAction} {out : Outcome} {t : Turn}

/-- The turn a step of a thread takes is one of its node. -/
theorem turnOf_of_lap (hlap : (s.services id).next ⟨.lap a, out⟩ service) (hout : out.turn = some t)
    (hservices : s'.services = Function.update s.services id service) (x : NodeId) :
    Deployment.turnOf x ⟨s, ⟨.lap id a, out⟩, s'⟩ =
      if x = id then some ⟨(s.services id).thread.node, t, service.thread.node⟩ else none := by
  rw [Deployment.turnOf]
  by_cases hx : x = id
  · obtain rfl := hx
    show (if x = x then out.turn.map _ else none) = _
    rw [if_pos rfl, if_pos rfl, hout, hservices, Function.update_self]
    rfl
  · rw [if_neg hx]
    exact if_neg (Ne.symm hx)

/-- A notice makes a node do nothing. -/
theorem silent_of_notice {n n' : Node} {env : Env} {i : Input} {eff : Effects}
    (hturned : n.Turned env i n' eff) (hnotice : IsNotice i) : n' = n ∧ eff.Silent := by
  cases hturned with
  | idle _ silent => exact ⟨rfl, silent⟩
  | _ => exact hnotice.elim

theorem packets_of_silent {eff : Effects} (hsilent : eff.Silent) (id : NodeId) :
    eff.packets id = [] := by
  rw [Effects.packets, hsilent.1, hsilent.2.1, List.map_nil, List.map_nil, List.append_nil]

/-- **A turn of the system is a turn of the cluster**, by whatever action the cluster takes it. -/
theorem Refines.turn (hR : Refines cfg h s h' c) {a' : Action} {j : Input} {m' : Node}
    {eff' : Effects} (hlap : (s.services id).next ⟨.lap a, out⟩ service) (hout : out.turn = some t)
    (hservices : s'.services = Function.update s.services id service)
    (hcall : c.callOf a' = some ⟨id, t.env, j⟩) (hinput : j.anonymous = t.input.anonymous)
    (hhandle : (c.nodes id).handle t.env j = some (m', eff'))
    (hnode : m'.anonymous = service.thread.node.anonymous)
    (heffects : eff'.anonymous = t.effects.anonymous)
    (hnodes : c'.nodes = Function.update c.nodes id m') (hnotice : ¬ IsNotice t.input)
    (hflight : s'.inFlight cfg ≤ ↑c'.net) (hclock : c'.clock ≤ s'.clock) :
    Refines cfg (⟨s, ⟨.lap id a, out⟩, s'⟩ :: h) s' (⟨c, a', c'⟩ :: h') c' where
  nodes x := by
    rw [hnodes, hservices]
    by_cases hx : x = id
    · obtain rfl := hx
      rw [Function.update_self, Function.update_self, hnode]
    · rw [Function.update_of_ne hx, Function.update_of_ne hx]
      exact hR.nodes x
  turns x := by
    have hturn := turnOf_of_lap hlap hout hservices x
    have hdiary : Cluster.turns x (⟨c, a', c'⟩ :: h') =
        Cluster.Diary.turn (Cluster.diary h') id ⟨c.nodes id, ⟨t.env, j, eff'⟩, m'⟩ x :=
      congrFun (Cluster.diary_call hcall hhandle hnodes) x
    rw [hdiary, Cluster.Diary.turn, Deployment.turns]
    by_cases hx : x = id
    · obtain rfl := hx
      rw [if_pos rfl] at hturn
      have hsame : anonymous ⟨c.nodes x, ⟨t.env, j, eff'⟩, m'⟩ =
          anonymous ⟨(s.services x).thread.node, t, service.thread.node⟩ := by
        rw [anonymous, anonymous]
        dsimp only
        rw [hR.nodes x, hinput, heffects, hnode]
      rw [Function.update_self, List.filterMap_cons_some hturn, List.filter_cons_of_pos (by simpa),
        List.map_cons, List.map_cons, hsame]
      exact congrArg _ (hR.turns x)
    · rw [if_neg hx] at hturn
      rw [Function.update_of_ne hx, List.filterMap_cons_none hturn]
      exact hR.turns x
  flight := hflight
  clock := hclock

/-- A notice that a call failed does nothing, and is no turn of the cluster. -/
theorem Refines.notice (hR : Refines cfg h s h' c)
    (hlap : (s.services id).next ⟨.lap a, out⟩ service) (hout : out.turn = some t)
    (hservices : s'.services = Function.update s.services id service)
    (hturn : (s.services id).thread.node.next t service.thread.node)
    (hnotice : IsNotice t.input) (hflight : s'.inFlight cfg ≤ ↑c.net)
    (hclock : c.clock ≤ s'.clock) :
    Refines cfg (⟨s, ⟨.lap id a, out⟩, s'⟩ :: h) s' h' c where
  nodes x := by
    rw [hservices]
    by_cases hx : x = id
    · obtain rfl := hx
      rw [Function.update_self, hR.nodes x, (silent_of_notice (Node.handle_turned hturn) hnotice).1]
    · rw [Function.update_of_ne hx]
      exact hR.nodes x
  turns x := by
    have hturn := turnOf_of_lap hlap hout hservices x
    rw [hR.turns x, Deployment.turns, Deployment.turns]
    by_cases hx : x = id
    · rw [if_pos hx] at hturn
      rw [List.filterMap_cons_some hturn, List.filter_cons_of_neg (by simpa)]
    · rw [if_neg hx] at hturn
      rw [List.filterMap_cons_none hturn]
  flight := hflight
  clock := hclock

/-- An answer depends on the reply alone. -/
theorem answer_of_reply {p : Packet} {eff eff' : Effects} (h : eff'.reply = eff.reply) :
    p.answer eff' = p.answer eff := by
  cases p with
  | voteReq | entriesReq => rw [Packet.answer, Packet.answer, h]
  | voteResp | entriesResp => rfl

/-- A turn that consumes nothing and answers nothing. -/
theorem Refines.sent (hR : Refines cfg h s h' c) {eff : Effects}
    (hflight : ↑([] : List Packet) + s'.inFlight cfg ≤
      s.inFlight cfg + ↑([].flatMap (Packet.answer eff) ++ eff.packets id)) :
    s'.inFlight cfg ≤ ↑(c.net ++ eff.packets id) := by
  rw [Multiset.coe_nil, zero_add, List.flatMap_nil, List.nil_append] at hflight
  rw [← Multiset.coe_add]
  exact hflight.trans (add_le_add hR.flight le_rfl)

/-- A turn that consumes a packet. -/
theorem Refines.answered (hR : Refines cfg h s h' c) {eff : Effects} {p : Packet} (hp : p ∈ c.net)
    (hflight : ↑[p] + s'.inFlight cfg ≤
      s.inFlight cfg + ↑([p].flatMap (Packet.answer eff) ++ eff.packets id)) :
    s'.inFlight cfg ≤ ↑(c.net.erase p ++ p.answer eff ++ eff.packets id) := by
  have hnet : (↑c.net : Multiset Packet) = ↑[p] + ↑(c.net.erase p) :=
    Multiset.coe_eq_coe.2 (List.perm_cons_erase hp)
  refine (add_le_add_iff_left (↑[p] : Multiset Packet)).1 (hflight.trans ?_)
  rw [List.append_assoc, ← Multiset.coe_add (c.net.erase p), ← add_assoc, ← hnet,
    List.flatMap_singleton]
  exact add_le_add hR.flight le_rfl

/-- **A step of a thread** is matched by one step of the cluster, or none. -/
theorem Refines.lap (hrun : DeploymentRun cfg started h s) (hR : Refines cfg h s h' c)
    (hid : id ∈ cfg.members) (hlap : (s.services id).next ⟨.lap a, out⟩ service)
    (hle : s.clock ≤ out.clock s.clock)
    (hs' : s' = { services := Function.update s.services id service
                  tasks := s.tasks ++ out.tasks id
                  strays := s.strays
                  clock := out.clock s.clock }) :
    ∃ h'' c', Run (Cluster.next cfg) c h'' c' ∧
      Refines cfg (⟨s, ⟨.lap id a, out⟩, s'⟩ :: h) s' (h'' ++ h') c' := by
  have hservices : s'.services = Function.update s.services id service := by rw [hs']
  have hclock : s'.clock = out.clock s.clock := by rw [hs']
  rcases inFlight_of_lap hrun hid (out.clock s.clock) hlap with
    ⟨hnone, hflight⟩ | ⟨t, consumed, hout, hconsumes, hmem, hflight⟩
  case inl =>
    have hnode : service.thread.node = (s.services id).thread.node := by
      rcases Service.turn_of_lap hlap with ⟨_, hnode⟩ | ⟨_, hsome, _⟩
      · exact hnode
      · exact absurd (hnone.symm.trans hsome) nofun
    refine ⟨[], c, .nil, hR.idle (fun x => ?_) (fun x => ?_) (hs' ▸ hflight) (hclock ▸ hle)⟩
    · rw [hservices]
      by_cases hx : x = id
      · obtain rfl := hx
        rw [Function.update_self, hnode]
      · rw [Function.update_of_ne hx]
    · show (if id = x then out.turn.map _ else none) = none
      rw [hnone, Option.map_none, ite_self]
  case inr =>
    rw [← hs'] at hflight
    obtain ⟨hturn, hdraws⟩ : (s.services id).thread.node.next t service.thread.node ∧
        (s.services id).thread.Draws t.env := by
      rcases Service.turn_of_lap hlap with ⟨hnone, _⟩ | ⟨_, hsome, hturn, hdraws⟩
      · exact absurd (hnone.symm.trans hout) nofun
      · obtain rfl := Option.some.inj (hout.symm.trans hsome)
        exact ⟨hturn, hdraws⟩
    have hnow : s'.clock = t.env.now := by rw [hclock, Outcome.clock, hout, Option.elim_some]
    have hadmits : c.Admits id t.env := by
      refine ⟨hR.clock.trans (hle.trans (hclock ▸ hnow).le), ?_⟩
      rw [Node.range_of_anonymous (hR.nodes id)]
      exact hdraws
    -- the turn of the cluster with the same input
    have hmatched : ∀ j : Input, j.anonymous = t.input.anonymous →
        ∃ m' eff', (c.nodes id).handle t.env j = some (m', eff') ∧
          m'.anonymous = service.thread.node.anonymous ∧
          eff'.anonymous = t.effects.anonymous :=
      fun j hj => Node.exists_handle (hR.nodes id) hj hturn
    generalize hi : t.input = i at hconsumes
    cases hconsumes with
    | tick =>
        obtain ⟨m', eff', hhandle, hnode, heffects⟩ := hmatched .tick (by rw [hi])
        refine ⟨[_], _, .cons .nil (Cluster.next_tick hid hadmits hhandle),
          hR.turn hlap hout hservices rfl (by rw [hi]) hhandle hnode heffects rfl ?_ ?_ hnow.ge⟩
        · rw [hi]
          exact not_false
        · rw [Effects.packets_of_anonymous id heffects]
          exact hR.sent hflight
    | client req resp =>
        have hinput : (Input.msg (req.msg c.requests)).anonymous = t.input.anonymous := by
          rw [hi]
          cases req <;> rfl
        obtain ⟨m', eff', hhandle, hnode, heffects⟩ := hmatched _ hinput
        have hnotice : ¬ IsNotice t.input := by
          rw [hi]
          cases req <;> exact not_false
        refine ⟨[_], _, .cons .nil (Cluster.next_client hid hadmits hhandle),
          hR.turn hlap hout hservices rfl hinput hhandle hnode heffects rfl hnotice ?_ hnow.ge⟩
        rw [Effects.packets_of_anonymous id heffects]
        exact hR.sent hflight
    | notice peer batchEnd =>
        have hnotice : IsNotice t.input := by
          rw [hi]
          trivial
        have hsilent := packets_of_silent (silent_of_notice (Node.handle_turned hturn) hnotice).2 id
        refine ⟨[], c, .nil, hR.notice hlap hout hservices hturn hnotice ?_ ?_⟩
        · have hsent := hR.sent hflight
          rwa [hsilent, List.append_nil] at hsent
        · exact hR.clock.trans (hclock ▸ hle)
    | packet p dst answered =>
        obtain rfl := dst
        obtain ⟨m', eff', hhandle, hnode, heffects⟩ := hmatched (.msg p.msg) (by rw [hi])
        have hp : p ∈ c.net :=
          Multiset.mem_coe.1 (Multiset.mem_of_le (hmem.trans hR.flight) (List.mem_singleton_self p))
        have hnotice : ¬ IsNotice t.input := by rwa [hi]
        refine ⟨[_], _, .cons .nil (Cluster.next_deliver hp hadmits hhandle),
          hR.turn hlap hout hservices rfl (by rw [hi]) hhandle hnode heffects rfl hnotice ?_
            hnow.ge⟩
        rw [Effects.packets_of_anonymous p.dst heffects,
          answer_of_reply (Effects.reply_of_anonymous heffects)]
        exact hR.answered hp hflight

/-- **The deployed system refines the cluster.**  Every run of the services of all members, with
the tasks between them, is matched by a run of the cluster: the nodes stand in the same states, but
for the names of their channels, and took the same turns, but for the notices of failed calls. -/
theorem deployment_refines (hrun : DeploymentRun cfg started h s) :
    ∃ h' c, ClusterRun cfg started h' c ∧ Refines cfg h s h' c := by
  refine Run.refinement (Refines cfg) ?_ ?_ hrun
  · refine ⟨fun _ => rfl, fun _ => rfl, ?_, le_rfl⟩
    have hnothing : (Deployment.init cfg started).inFlight cfg = 0 :=
      (zero_add _).trans (Finset.sum_eq_zero fun _ _ => rfl)
    rw [hnothing]
    exact Multiset.zero_le _
  · intro h s e s' h' c hrun _ hR hnext
    have hmoved := Deployment.next_moved hnext
    obtain ⟨act, out⟩ := e
    cases act with
    | lap id a =>
        cases hmoved with
        | lapped member lap le => exact hR.lap hrun member lap le rfl
        | silenced _ gets | posted _ gets => exact gets.elim
    | call | shutdown | arrive | finish | fail | stray =>
        have hsame := quiet_of_next hnext nofun
        exact ⟨[], c, .nil, hR.idle (fun id => (hsame id).1) (fun id => (hsame id).2.1)
          (inFlight_of_quiet hrun hnext nofun) (hsame ⟨"", 0⟩).2.2.ge⟩

/-- A call to append goes through the threads and tasks of all members and returns. -/
theorem deployment_refines_appendReturned : ∃ h s, DeploymentRun .trio (fun _ => 0) h s ∧
    (0, .ok (.append 1)) ∈ (s.services (localhost 2113)).results ∧
      ∃ h' c, ClusterRun .trio (fun _ => 0) h' c ∧ Refines .trio h s h' c := by
  obtain ⟨h, s, hrun, hreturned⟩ := DeploymentRun.exists_of_replay .trio appendReturned
    (fun _ s => (0, .ok (.append 1)) ∈ (s.services (localhost 2113)).results) (by decide +kernel)
  exact ⟨h, s, hrun, hreturned, deployment_refines hrun⟩

end

end Safety
end RaftPlayground
