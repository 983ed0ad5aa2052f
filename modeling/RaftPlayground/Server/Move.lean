/-
# What one step of a cluster can do

`Cluster.step` calls one handler of one node, or touches the packets in flight
only.  `Cluster.Moved` says which, where the input of the call came from, and
what may be in flight afterwards.  The calls a cluster makes on one node are a
run of that node (`ClusterRun.turns_run`), so what holds of every run of a node
holds of the nodes of a cluster.
-/

import RaftPlayground.Server.Cluster
import RaftPlayground.Server.Turn

namespace RaftPlayground
namespace Server

open Protocol

namespace Cluster

/-- The ways a step of a cluster goes. -/
inductive Moved (cfg : Config) (c : Cluster) : Action → Cluster → Prop
  | ticked {env id n eff c'} (member : id ∈ cfg.members) (env_ok : c.Admits id env)
      (handled : (c.nodes id).handle env .tick = some (n, eff))
      (nodes : c'.nodes = Function.update c.nodes id n)
      (net : ∀ p ∈ c'.net, p ∈ c.net ∨ p ∈ eff.packets id) (reqs : c'.requests = c.requests) :
      Moved cfg c (.tick env id) c'
  | requested {env id req n eff c'} (member : id ∈ cfg.members) (env_ok : c.Admits id env)
      (handled : (c.nodes id).handle env (.msg (req.msg c.requests)) = some (n, eff))
      (nodes : c'.nodes = Function.update c.nodes id n)
      (net : ∀ p ∈ c'.net, p ∈ c.net ∨ p ∈ eff.packets id) (reqs : c'.requests = c.requests + 1) :
      Moved cfg c (.client env id req) c'
  | delivered {env p n eff c'} (flight : p ∈ c.net) (env_ok : c.Admits p.dst env)
      (handled : (c.nodes p.dst).handle env (.msg p.msg) = some (n, eff))
      (nodes : c'.nodes = Function.update c.nodes p.dst n)
      (net : ∀ q ∈ c'.net, q ∈ c.net ∨ q ∈ p.answer eff ∨ q ∈ eff.packets p.dst)
      (reqs : c'.requests = c.requests) :
      Moved cfg c (.deliver env p) c'
  | dropped {a c'} (quiet : c.callOf a = none) (nodes : c'.nodes = c.nodes)
      (net : ∀ q ∈ c'.net, q ∈ c.net ∨ ∃ p ∈ c.net, q ∈ p.failure)
      (reqs : c'.requests = c.requests) :
      Moved cfg c a c'

theorem call_eq_some {c c' : Cluster} {net : List Packet} {answer : Effects → List Packet}
    {k : Call} (h : c.call net answer k = some c') :
    ∃ n eff, (c.nodes k.id).handle k.env k.input = some (n, eff) ∧
      c' = { nodes := Function.update c.nodes k.id n
             net := net ++ answer eff ++ eff.packets k.id
             clock := k.env.now
             requests := c.requests } := by
  simp only [call, Option.bind_eq_bind, Option.bind_eq_some_iff, Option.some.injEq] at h
  obtain ⟨⟨n, eff⟩, hn, rfl⟩ := h
  exact ⟨n, eff, hn, rfl⟩

/-- A call that returns is possible. -/
theorem call_of_handle {c : Cluster} {k : Call} {n : Node} {eff : Effects} (net : List Packet)
    (answer : Effects → List Packet)
    (hhandle : (c.nodes k.id).handle k.env k.input = some (n, eff)) :
    c.call net answer k = some
      { nodes := Function.update c.nodes k.id n
        net := net ++ answer eff ++ eff.packets k.id
        clock := k.env.now
        requests := c.requests } := by
  rw [call, hhandle]
  rfl

section

variable {cfg : Config} {c : Cluster} {id : NodeId} {env : Env} {n : Node} {eff : Effects}

/-- **The actions a cluster takes**: a tick, a request and a delivery whose call returns. -/
theorem next_tick (hid : id ∈ cfg.members) (hadmits : c.Admits id env)
    (hhandle : (c.nodes id).handle env .tick = some (n, eff)) :
    c.next cfg (.tick env id)
      { nodes := Function.update c.nodes id n
        net := c.net ++ eff.packets id
        clock := env.now
        requests := c.requests } := by
  have hcall := call_of_handle (k := ⟨id, env, .tick⟩) c.net (fun _ => []) hhandle
  rw [List.append_nil] at hcall
  rw [next, step, if_pos ⟨hid, hadmits⟩, hcall]

theorem next_client {req : ClientReq} (hid : id ∈ cfg.members) (hadmits : c.Admits id env)
    (hhandle : (c.nodes id).handle env (.msg (req.msg c.requests)) = some (n, eff)) :
    c.next cfg (.client env id req)
      { nodes := Function.update c.nodes id n
        net := c.net ++ eff.packets id
        clock := env.now
        requests := c.requests + 1 } := by
  have hcall := call_of_handle (k := ⟨id, env, .msg (req.msg c.requests)⟩) c.net (fun _ => [])
    hhandle
  rw [List.append_nil] at hcall
  rw [next, step, if_pos ⟨hid, hadmits⟩, hcall]
  rfl

theorem next_deliver {p : Packet} (hp : p ∈ c.net) (hadmits : c.Admits p.dst env)
    (hhandle : (c.nodes p.dst).handle env (.msg p.msg) = some (n, eff)) :
    c.next cfg (.deliver env p)
      { nodes := Function.update c.nodes p.dst n
        net := c.net.erase p ++ p.answer eff ++ eff.packets p.dst
        clock := env.now
        requests := c.requests } := by
  have hcall := call_of_handle (k := ⟨p.dst, env, .msg p.msg⟩) (c.net.erase p)
    (fun eff => p.answer eff) hhandle
  rw [next, step, if_pos ⟨hp, hadmits⟩, hcall]

end

/-- A failed call is reported without an answer. -/
theorem mem_failure {p q : Packet} (h : q ∈ p.failure) :
    ∃ src dst b, q = .entriesResp src dst b none := by
  cases p with
  | voteReq | voteResp => simp [Packet.failure] at h
  | entriesReq | entriesResp => exact ⟨_, _, _, List.mem_singleton.1 h⟩

/-- **The case analysis of a cluster step.** -/
theorem next_moved {cfg : Config} {c c' : Cluster} {a : Action} (h : c.next cfg a c') :
    c.Moved cfg a c' := by
  unfold next at h
  cases a with
  | tick env id =>
      simp only [step, Option.ite_none_right_eq_some] at h
      obtain ⟨⟨hid, henv⟩, hcall⟩ := h
      obtain ⟨n, eff, hn, rfl⟩ := call_eq_some hcall
      refine .ticked hid henv hn rfl (fun p hp => ?_) rfl
      rwa [List.append_nil, List.mem_append] at hp
  | client env id req =>
      simp only [step, Option.ite_none_right_eq_some, Option.bind_eq_bind,
        Option.bind_eq_some_iff, Option.some.injEq] at h
      obtain ⟨⟨hid, henv⟩, c₁, hcall, rfl⟩ := h
      obtain ⟨n, eff, hn, rfl⟩ := call_eq_some hcall
      refine .requested hid henv hn rfl (fun p hp => ?_) rfl
      rwa [List.append_nil, List.mem_append] at hp
  | deliver env p =>
      simp only [step, Option.ite_none_right_eq_some] at h
      obtain ⟨⟨hp, henv⟩, hcall⟩ := h
      obtain ⟨n, eff, hn, rfl⟩ := call_eq_some hcall
      refine .delivered hp henv hn rfl (fun q hq => ?_) rfl
      rw [List.append_assoc, List.mem_append, List.mem_append] at hq
      exact hq.imp_left List.mem_of_mem_erase
  | lose p =>
      simp only [step, Option.ite_none_right_eq_some, Option.some.injEq] at h
      obtain ⟨_, rfl⟩ := h
      exact .dropped rfl rfl (fun q hq => Or.inl (List.mem_of_mem_erase hq)) rfl
  | fail p =>
      simp only [step, Option.ite_none_right_eq_some, Option.some.injEq] at h
      obtain ⟨hp, rfl⟩ := h
      refine .dropped rfl rfl (fun q hq => ?_) rfl
      exact (List.mem_append.1 hq).imp List.mem_of_mem_erase fun hq => ⟨p, hp, hq⟩

/-- A step that makes a call runs the handler of that node and of no other. -/
theorem next_call {cfg : Config} {c c' : Cluster} {a : Action} {k : Call} (h : c.next cfg a c')
    (hk : c.callOf a = some k) :
    ∃ n eff, (c.nodes k.id).handle k.env k.input = some (n, eff) ∧
      c'.nodes = Function.update c.nodes k.id n := by
  cases next_moved h with
  | ticked _ _ handled nodes | requested _ _ handled nodes | delivered _ _ handled nodes =>
      obtain rfl := Option.some.inj hk
      exact ⟨_, _, handled, nodes⟩
  | dropped quiet => exact absurd hk (quiet ▸ Option.some_ne_none k).symm

/-- A step that makes no call leaves the nodes alone. -/
theorem next_quiet {cfg : Config} {c c' : Cluster} {a : Action} (h : c.next cfg a c')
    (hk : c.callOf a = none) : c'.nodes = c.nodes := by
  cases next_moved h with
  | ticked | requested | delivered => exact absurd hk (Option.some_ne_none _)
  | dropped _ nodes => exact nodes

/-- The turn a cluster step takes on the node `id`, if it takes one. -/
def turnOf (id : NodeId) (st : Step Cluster Action) : Option (Step Node Turn) := do
  let k ← st.before.callOf st.act
  if k.id = id then do
    let (_, eff) ← (st.before.nodes id).handle k.env k.input
    some
      { before := st.before.nodes id
        act := { env := k.env, input := k.input, effects := eff }
        after := st.after.nodes id }
  else none

/-- The turns of the node `id` in the history of a cluster. -/
def turns (id : NodeId) (h : List (Step Cluster Action)) : List (Step Node Turn) :=
  h.filterMap (turnOf id)

/-- The turns of every node. -/
abbrev Diary := NodeId → List (Step Node Turn)

/-- The diary with one more turn of a node. -/
abbrev Diary.turn (d : Diary) (id : NodeId) (t : Step Node Turn) : Diary :=
  Function.update d id (t :: d id)

section

variable {d : Diary} {id x : NodeId} {s t : Step Node Turn}

theorem mem_turn (h : s ∈ d x) : s ∈ Diary.turn d id t x := by
  unfold Diary.turn
  by_cases hx : x = id
  · subst hx
    rw [Function.update_self]
    exact List.mem_cons_of_mem _ h
  · rwa [Function.update_of_ne hx]

/-- What a turn of a node was stays so. -/
theorem exists_mem_turn {p : Step Node Turn → Prop} (h : ∃ s ∈ d x, p s) :
    ∃ s ∈ Diary.turn d id t x, p s := by
  obtain ⟨s, hs, hp⟩ := h
  exact ⟨s, mem_turn hs, hp⟩

theorem mem_turn_self : t ∈ Diary.turn d id t id := by
  rw [Diary.turn, Function.update_self]
  exact List.mem_cons_self

end

/-- The turns of every node in the history of a cluster. -/
def diary (h : List (Step Cluster Action)) : Diary := fun id => turns id h

/-- A call adds its turn to the turns of its node. -/
theorem diary_call {c c' : Cluster} {a : Action} {h : List (Step Cluster Action)} {id : NodeId}
    {env : Env} {i : Input} {n : Node} {eff : Effects} (hk : c.callOf a = some ⟨id, env, i⟩)
    (hn : (c.nodes id).handle env i = some (n, eff))
    (hnodes : c'.nodes = Function.update c.nodes id n) :
    diary (⟨c, a, c'⟩ :: h) = Diary.turn (diary h) id ⟨c.nodes id, ⟨env, i, eff⟩, n⟩ := by
  funext x
  rw [diary, turns, List.filterMap_cons, Diary.turn]
  by_cases hx : x = id
  · subst hx
    simp [turnOf, hk, hn, hnodes, diary, turns]
  · simp [turnOf, hk, Ne.symm hx, Function.update_of_ne hx, diary, turns]

theorem diary_quiet {st : Step Cluster Action} {h : List (Step Cluster Action)}
    (hk : st.before.callOf st.act = none) : diary (st :: h) = diary h := by
  funext id
  simp [diary, turns, turnOf, hk]

/-- Every call of a history meets the condition. -/
def Meets (cond : Env → Node → Input → Prop) (st : Step Cluster Action) : Prop :=
  ∀ k, st.before.callOf st.act = some k → cond k.env (st.before.nodes k.id) k.input

instance (cond : Env → Node → Input → Prop) [∀ env n i, Decidable (cond env n i)]
    (st : Step Cluster Action) : Decidable (Meets cond st) :=
  inferInstanceAs (Decidable (∀ k, k ∈ st.before.callOf st.act → _))

theorem turnOf_cases {cfg : Config} {c c' : Cluster} {a : Action} (h : c.next cfg a c')
    (id : NodeId) :
    (turnOf id ⟨c, a, c'⟩ = none ∧ c'.nodes id = c.nodes id) ∨
      ∃ k eff, c.callOf a = some k ∧ k.id = id ∧
        (c.nodes id).handle k.env k.input = some (c'.nodes id, eff) ∧
          turnOf id ⟨c, a, c'⟩ = some ⟨c.nodes id, ⟨k.env, k.input, eff⟩, c'.nodes id⟩ := by
  cases hk : c.callOf a with
  | none =>
      exact Or.inl ⟨by simp only [turnOf, hk, Option.bind_eq_bind, Option.bind_none],
        congrFun (next_quiet h hk) id⟩
  | some k =>
      obtain ⟨n, eff, hn, hnodes⟩ := next_call h hk
      by_cases hid : k.id = id
      · subst hid
        have hself : c'.nodes k.id = n := by rw [hnodes, Function.update_self]
        refine Or.inr ⟨k, eff, rfl, rfl, hself ▸ hn, ?_⟩
        simp only [turnOf, hk, hn, Option.bind_eq_bind, Option.bind_some, if_true]
      · refine Or.inl ⟨?_, by rw [hnodes, Function.update_of_ne (Ne.symm hid)]⟩
        simp only [turnOf, hk, Option.bind_eq_bind, Option.bind_some, if_neg hid]

end Cluster

/-- **The calls on one node are a run of that node.** -/
theorem ClusterRun.turns_run {cfg : Config} {started : NodeId → ℕ}
    {h : List (Step Cluster Action)} {c : Cluster} (hrun : ClusterRun cfg started h c)
    (id : NodeId) :
    NodeRun id (cfg.seeds id) (started id) (Cluster.turns id h) (c.nodes id) := by
  induction hrun with
  | nil => exact .nil
  | cons _ hnext ih =>
      rcases Cluster.turnOf_cases hnext id with ⟨hnone, hsame⟩ | ⟨k, eff, _, _, hn, hsome⟩
      · rw [Cluster.turns, List.filterMap_cons_none hnone, hsame]
        exact ih
      · rw [Cluster.turns, List.filterMap_cons_some hsome]
        exact .cons ih hn

/-- Every node has a peer. -/
theorem Config.exists_peer (cfg : Config) (id : NodeId) : ∃ x ∈ cfg.members, x ≠ id := by
  by_contra! hsub
  match hm : cfg.members, cfg.nodup with
  | [], _ | [_], _ =>
      have h₂ := cfg.two_le
      simp [hm] at h₂
  | x :: y :: _, hnd =>
      have hx := hsub x (by simp [hm])
      have hy := hsub y (by simp [hm])
      exact (List.nodup_cons.1 hnd).1 (by simp [hx, hy])

/-- A node has peers, so it starts as a follower. -/
theorem Config.start_status (cfg : Config) (id : NodeId) (now : ℕ) :
    (Node.start id (cfg.seeds id) now).volatile.status = .follower := by
  have hne : cfg.seeds id ≠ [] := by
    obtain ⟨x, hx, hxid⟩ := cfg.exists_peer id
    rw [Config.seeds, ne_eq, List.map_eq_nil_iff, List.filter_eq_nil_iff]
    exact fun h => h x hx (decide_eq_true hxid)
  simp [Node.start, Volatile.new, hne]

theorem Config.start_placed (cfg : Config) (id : NodeId) (now : ℕ) :
    (Node.start id (cfg.seeds id) now).Placed cfg.members id where
  id_eq := rfl
  nodeId_eq := rfl
  mem_ids x := by
    rw [Node.start, Volatile.new, Seeds.mem_ids_new, Config.seeds, List.map_map]
    simp [Function.comp_def, Seed.new]

/-- In every run of a member it keeps its place. -/
theorem NodeRun.placed {cfg : Config} {id : NodeId} {now : ℕ} {ts : List (Step Node Turn)}
    {n : Node} (hrun : NodeRun id (cfg.seeds id) now ts n) : n.Placed cfg.members id :=
  Run.invariant (fun _ => True) (fun _ n => n.Placed cfg.members id) (cfg.start_placed id now)
    (fun _ _ _ _ _ hp hnext _ => hp.turned (Node.handle_turned hnext)) hrun fun _ _ => trivial

/-- In every run of a cluster every node keeps its place. -/
theorem ClusterRun.placed {cfg : Config} {started : NodeId → ℕ} {h : List (Step Cluster Action)}
    {c : Cluster} (hrun : ClusterRun cfg started h c) (id : NodeId) :
    (c.nodes id).Placed cfg.members id :=
  NodeRun.placed (hrun.turns_run id)

/-- The packet goes from one member to another, under the sender's name. -/
structure Packet.Routed (members : List NodeId) (p : Packet) : Prop where
  src_mem : p.src ∈ members
  dst_mem : p.dst ∈ members
  ne : p.src ≠ p.dst
  signed : p.Signed

theorem Packet.Routed.answer {members : List NodeId} {p q : Packet} {eff : Effects}
    (h : p.Routed members) (hq : q ∈ p.answer eff) : q.Routed members := by
  cases p with
  | voteReq =>
      obtain ⟨_, _, _, rfl⟩ := Packet.mem_answer_voteReq.1 hq
      exact ⟨h.dst_mem, h.src_mem, h.ne.symm, trivial⟩
  | entriesReq =>
      obtain ⟨_, _, _, rfl⟩ := Packet.mem_answer_entriesReq.1 hq
      exact ⟨h.dst_mem, h.src_mem, h.ne.symm, trivial⟩
  | voteResp | entriesResp => simp [Packet.answer] at hq

theorem Packet.Routed.failure {members : List NodeId} {p q : Packet} (h : p.Routed members)
    (hq : q ∈ p.failure) : q.Routed members := by
  cases p with
  | entriesReq =>
      rw [List.mem_singleton.1 hq]
      exact ⟨h.dst_mem, h.src_mem, h.ne.symm, trivial⟩
  | entriesResp =>
      rw [List.mem_singleton.1 hq]
      exact ⟨h.src_mem, h.dst_mem, h.ne, trivial⟩
  | voteReq | voteResp => simp [Packet.failure] at hq

namespace Node

/-- What a turn sends goes to the peers of the node, under its name. -/
theorem Turned.routed {members : List NodeId} {id : NodeId} {env : Env} {n n' : Node} {i : Input}
    {eff : Effects} (ht : n.Turned env i n' eff) (hplace : n.Placed members id)
    (hid : id ∈ members) {p : Packet} (hp : p ∈ eff.packets id) : p.Routed members := by
  have hvote : ∀ (es : Entries) (term : ℕ), ∀ x ∈ n.volatile.seeds.requestVote es term,
      (Packet.voteReq id x.1 x.2).Routed members := by
    intro es term x hx
    obtain ⟨hdst, hreq⟩ := Seeds.mem_requestVote hx
    obtain ⟨hmem, hne⟩ := (hplace.mem_ids x.1).1 hdst
    exact ⟨hid, hmem, hne.symm, by rw [hreq]; exact hplace.nodeId_eq⟩
  have hentries : ∀ (s : Seeds) (es : Entries) (term commit : ℕ), s.nodeId = id →
      s.ids = n.volatile.seeds.ids → ∀ x ∈ s.sendAppendEntries es term commit,
        (Packet.entriesReq id x.1 x.2).Routed members := by
    intro s es term commit hs hids x hx
    obtain ⟨seed, hseed, rfl⟩ := Seeds.mem_sendAppendEntries hx
    obtain ⟨hmem, hne⟩ := (hplace.mem_ids seed.id).1 (hids ▸ Seeds.mem_ids_of_mem hseed)
    exact ⟨hid, hmem, hne.symm, hs⟩
  rw [Effects.mem_packets] at hp
  cases ht with
  | idle quiet silent =>
      rw [silent.1, silent.2.1] at hp
      simp at hp
  | heartbeat =>
      rcases hp with ⟨x, hx, _⟩ | ⟨x, hx, rfl⟩
      · simp at hx
      · exact hentries _ _ _ _ hplace.nodeId_eq rfl x hx
  | candidacy =>
      rcases hp with ⟨x, hx, rfl⟩ | ⟨x, hx, _⟩
      · exact hvote _ _ x hx
      · simp at hx
  | elected =>
      rcases hp with ⟨x, hx, _⟩ | ⟨x, hx, rfl⟩
      · simp at hx
      · exact hentries (n.volatile.seeds.reset n.persistent.entries.lastIndex) _ _ _
          hplace.nodeId_eq (Seeds.ids_reset _ _) x hx
  | _ => simp at hp

end Node

/-- In every run of a cluster every packet in flight is routed. -/
theorem ClusterRun.routed {cfg : Config} {started : NodeId → ℕ} {h : List (Step Cluster Action)}
    {c : Cluster} (hrun : ClusterRun cfg started h c) : ∀ p ∈ c.net, p.Routed cfg.members := by
  refine Run.invariant (fun _ => True) (fun _ c => ∀ p ∈ c.net, p.Routed cfg.members)
    (fun p hp => absurd hp List.not_mem_nil) ?_ hrun fun _ _ => trivial
  intro h c a c' hrun hnet hnext _ q hq
  cases Cluster.next_moved hnext with
  | ticked member _ handled _ net | requested member _ handled _ net =>
      rcases net q hq with hq | hq
      · exact hnet q hq
      · exact (Node.handle_turned handled).routed (ClusterRun.placed hrun _) member hq
  | delivered flight _ handled _ net =>
      have hp := hnet _ flight
      rcases net q hq with hq | hq | hq
      · exact hnet q hq
      · exact hp.answer hq
      · exact (Node.handle_turned handled).routed (ClusterRun.placed hrun _) hp.dst_mem hq
  | dropped _ _ net =>
      rcases net q hq with hq | ⟨p, hp, hq⟩
      · exact hnet q hq
      · exact (hnet p hp).failure hq

/-- The turns of a node meet what the calls of the cluster meet. -/
theorem Cluster.meets_turns {cond : Env → Node → Input → Prop} {h : List (Step Cluster Action)}
    (hmeets : ∀ st ∈ h, Meets cond st) (id : NodeId) :
    ∀ t ∈ turns id h, cond t.act.env t.before t.act.input := by
  intro t ht
  obtain ⟨st, hst, hturn⟩ := List.mem_filterMap.1 ht
  simp only [turnOf, Option.bind_eq_bind, Option.bind_eq_some_iff] at hturn
  obtain ⟨k, hk, hturn⟩ := hturn
  split_ifs at hturn with hid
  simp only [Option.bind_eq_some_iff, Option.some.injEq] at hturn
  obtain ⟨_, _, rfl⟩ := hturn
  exact hid ▸ hmeets st hst k hk

end Server
end RaftPlayground
