/-
# Invariants of a cluster, turn by turn

Most invariants of a cluster are conjunctions: something about every node, and
something about every packet in flight, both relative to the turns taken so far and
to a ghost record of the past that only grows.  `Upkeep` is what has to be shown for
such an invariant: it holds of the starting nodes, and a turn of one node keeps it,
given what the invariant says about the packet the turn starts with.  `Upkeep.run` is
the induction over all runs, done once: interleaving, loss and reordering are settled
there.

A turn may also leave a fact about the ghost; the facts of all turns hold of the
ghost at the end.
-/

import RaftPlayground.Server.Move

namespace RaftPlayground
namespace Server

open Protocol Cluster

/-- Where the input of a turn of the node `id` comes from: its own timer, a client,
or a packet in flight, of which `packet` holds. -/
inductive Origin (members : List NodeId) (packet : Packet → Prop) (id : NodeId) : Input → Prop
  | tick : Origin members packet id .tick
  | client (req : ClientReq) (resp : Sender) : Origin members packet id (.msg (req.msg resp))
  | packet (p : Packet) (routed : p.Routed members) (dst : p.dst = id) (known : packet p) :
      Origin members packet id (.msg p.msg)

theorem Origin.imp {members : List NodeId} {packet packet' : Packet → Prop} {id : NodeId}
    {i : Input} (h : Origin members packet id i) (himp : ∀ p, packet p → packet' p) :
    Origin members packet' id i := by
  cases h with
  | tick => exact .tick
  | client req resp => exact .client req resp
  | packet p routed dst known => exact .packet p routed dst (himp p known)

/-- The ghost of an invariant that speaks of the nodes and the packets alone. -/
inductive NoGhost
  | none

instance : Preorder NoGhost where
  le _ _ := True
  le_refl _ := trivial
  le_trans _ _ _ _ _ := trivial

/-- An invariant of the runs whose calls meet `cond`: what holds of every node and of
every packet in flight, relative to the turns taken so far and a ghost. -/
structure Upkeep (cfg : Config) (cond : Env → Node → Input → Prop) (γ : Type*) [Preorder γ] where
  node : Diary → γ → NodeId → Node → Prop
  packet : Diary → γ → Packet → Prop
  fact : γ → NodeId → Step Node Turn → Prop
  packet_mono : ∀ {d : Diary} {g g' : γ} {id t p}, g ≤ g' → packet d g p →
    packet (d.turn id t) g' p
  fact_mono : ∀ {g g' : γ} {id t}, g ≤ g' → fact g id t → fact g' id t
  /-- A call that failed says nothing. -/
  failed : ∀ d g src dst b, packet d g (.entriesResp src dst b none)
  start : ∀ now : NodeId → ℕ, ∃ g, ∀ id,
    node (diary []) g id (Node.start id (cfg.seeds id) (now id))
  /-- A turn keeps what is known of its node and of the others, and what it sends and
  answers is known. -/
  turn : ∀ {d : Diary} {g : γ} {id env n i n' eff}, id ∈ cfg.members → n.Placed cfg.members id →
    node d g id n → Origin cfg.members (packet d g) id i → cond env n i → n.Turned env i n' eff →
      ∃ g', g ≤ g' ∧ node (d.turn id ⟨n, ⟨env, i, eff⟩, n'⟩) g' id n' ∧
        (∀ x m, x ≠ id → node d g x m → node (d.turn id ⟨n, ⟨env, i, eff⟩, n'⟩) g' x m) ∧
        (∀ p ∈ eff.packets id, packet (d.turn id ⟨n, ⟨env, i, eff⟩, n'⟩) g' p) ∧
        (∀ p : Packet, p.Routed cfg.members → p.dst = id → i = .msg p.msg → packet d g p →
          ∀ q ∈ p.answer eff, packet (d.turn id ⟨n, ⟨env, i, eff⟩, n'⟩) g' q) ∧
        fact g' id ⟨n, ⟨env, i, eff⟩, n'⟩

namespace Upkeep

variable {cfg : Config} {cond : Env → Node → Input → Prop} {γ : Type*} [Preorder γ]

/-- What is known of a whole cluster. -/
structure Holds (U : Upkeep cfg cond γ) (d : Diary) (g : γ) (c : Cluster) : Prop where
  nodes : ∀ id, U.node d g id (c.nodes id)
  net : ∀ p ∈ c.net, U.packet d g p

variable {U : Upkeep cfg cond γ} {d : Diary} {g : γ} {c c' : Cluster}

/-- What is known of the input of a call. -/
theorem Holds.origin {started : NodeId → ℕ} {h : List (Step Cluster Action)} {a : Action}
    (hinv : U.Holds d g c) (hrun : ClusterRun cfg started h c) (hnext : c.next cfg a c') {k : Call}
    (hk : c.callOf a = some k) : Origin cfg.members (U.packet d g) k.id k.input := by
  cases Cluster.next_moved hnext with
  | ticked =>
      obtain rfl := Option.some.inj hk
      exact .tick
  | requested =>
      obtain rfl := Option.some.inj hk
      exact .client _ _
  | delivered flight =>
      obtain rfl := Option.some.inj hk
      exact .packet _ (ClusterRun.routed hrun _ flight) rfl (hinv.net _ flight)
  | dropped quiet => cases quiet.symm.trans hk

/-- One turn of one node, for the whole cluster. -/
theorem Holds.turned (h : U.Holds d g c) {id : NodeId} {env : Env} {i : Input} {n : Node}
    {eff : Effects} (hid : id ∈ cfg.members) (hplace : (c.nodes id).Placed cfg.members id)
    (horigin : Origin cfg.members (U.packet d g) id i) (hcond : cond env (c.nodes id) i)
    (hhandled : (c.nodes id).handle env i = some (n, eff))
    (hnodes : c'.nodes = Function.update c.nodes id n)
    (hnet : ∀ q ∈ c'.net, q ∈ c.net ∨ q ∈ eff.packets id ∨
      ∃ p : Packet, p.Routed cfg.members ∧ p.dst = id ∧ i = .msg p.msg ∧ U.packet d g p ∧
        q ∈ p.answer eff) :
    ∃ g', g ≤ g' ∧ U.Holds (d.turn id ⟨c.nodes id, ⟨env, i, eff⟩, n⟩) g' c' ∧
      U.fact g' id ⟨c.nodes id, ⟨env, i, eff⟩, n⟩ := by
  obtain ⟨g', hle, hnode, hothers, hsent, hanswer, hfact⟩ :=
    U.turn hid hplace (h.nodes id) horigin hcond (Node.handle_turned hhandled)
  refine ⟨g', hle, ⟨?_, ?_⟩, hfact⟩
  · intro x
    rw [hnodes]
    by_cases hx : x = id
    · subst hx
      rwa [Function.update_self]
    · rw [Function.update_of_ne hx]
      exact hothers x _ hx (h.nodes x)
  · intro q hq
    rcases hnet q hq with hq | hq | ⟨p, hr, hdst, hi, hp, hq⟩
    · exact U.packet_mono hle (h.net q hq)
    · exact hsent q hq
    · exact hanswer p hr hdst hi hp q hq

/-- **One step of a cluster keeps the invariant.** -/
theorem Holds.next {started : NodeId → ℕ} {h : List (Step Cluster Action)} {a : Action}
    (hrun : ClusterRun cfg started h c) (hinv : U.Holds (diary h) g c) (hnext : c.next cfg a c')
    (hcond : Cluster.Meets cond ⟨c, a, c'⟩) :
    ∃ g', g ≤ g' ∧ U.Holds (diary (⟨c, a, c'⟩ :: h)) g' c' ∧
      ∀ id t, Cluster.turnOf id ⟨c, a, c'⟩ = some t → U.fact g' id t := by
  -- the fact is about the one node that took a turn
  have hfact : ∀ {g' id env i n eff}, c.callOf a = some ⟨id, env, i⟩ →
      (c.nodes id).handle env i = some (n, eff) → c'.nodes = Function.update c.nodes id n →
      U.fact g' id ⟨c.nodes id, ⟨env, i, eff⟩, n⟩ →
        ∀ x t, Cluster.turnOf x ⟨c, a, c'⟩ = some t → U.fact g' x t := by
    intro g' id env i n eff hk hn hnodes hf x t ht
    simp only [Cluster.turnOf, hk, Option.bind_eq_bind, Option.bind_some] at ht
    split_ifs at ht with hx
    subst hx
    rw [hn] at ht
    obtain rfl := Option.some.inj ht
    rwa [hnodes, Function.update_self]
  cases Cluster.next_moved hnext with
  | ticked member _ handled nodes net | requested member _ handled nodes net =>
      obtain ⟨g', hle, hinv', hf⟩ := hinv.turned member (ClusterRun.placed hrun _)
        (hinv.origin hrun hnext rfl) (hcond _ rfl) handled nodes fun q hq =>
          (net q hq).imp_right Or.inl
      rw [diary_call rfl handled nodes]
      exact ⟨g', hle, hinv', hfact rfl handled nodes hf⟩
  | delivered flight _ handled nodes net =>
      have hr := ClusterRun.routed hrun _ flight
      have hp := hinv.net _ flight
      obtain ⟨g', hle, hinv', hf⟩ := hinv.turned hr.dst_mem (ClusterRun.placed hrun _)
        (hinv.origin hrun hnext rfl) (hcond _ rfl) handled nodes fun q hq => by
          rcases net q hq with hq | hq | hq
          · exact Or.inl hq
          · exact Or.inr (Or.inr ⟨_, hr, rfl, rfl, hp, hq⟩)
          · exact Or.inr (Or.inl hq)
      rw [diary_call rfl handled nodes]
      exact ⟨g', hle, hinv', hfact rfl handled nodes hf⟩
  | dropped quiet nodes net =>
      rw [diary_quiet quiet]
      refine ⟨g, le_rfl, ⟨?_, ?_⟩, ?_⟩
      · intro id
        rw [nodes]
        exact hinv.nodes id
      · intro q hq
        rcases net q hq with hq | ⟨_, _, hq⟩
        · exact hinv.net q hq
        · obtain ⟨src, dst, b, rfl⟩ := Cluster.mem_failure hq
          exact U.failed _ g src dst b
      · intro id t ht
        rw [Cluster.turnOf, quiet] at ht
        cases ht

/-- **Invariants hold in every run.** -/
theorem run (U : Upkeep cfg cond γ) {started : NodeId → ℕ} {h : List (Step Cluster Action)}
    {c : Cluster} (hrun : ClusterRun cfg started h c) (hcond : ∀ st ∈ h, Cluster.Meets cond st) :
    ∃ g, U.Holds (diary h) g c ∧ ∀ id, ∀ t ∈ Cluster.turns id h, U.fact g id t := by
  have hstart : ∃ g, U.Holds (diary []) g (Cluster.init cfg started) := by
    obtain ⟨g, hg⟩ := U.start started
    exact ⟨g, hg, fun p hp => absurd hp List.not_mem_nil⟩
  obtain ⟨g, hinv, hfact⟩ := Run.exists_ghost (Cluster.Meets cond)
    (fun g h c => U.Holds (diary h) g c)
    (fun g st => ∀ id t, Cluster.turnOf id st = some t → U.fact g id t)
    (fun hle hf id t ht => U.fact_mono hle (hf id t ht)) hstart
    (fun g h c a c' hrun hinv hnext hcond => hinv.next hrun hnext hcond) hrun hcond
  refine ⟨g, hinv, fun id t ht => ?_⟩
  obtain ⟨st, hst, hturn⟩ := List.mem_filterMap.1 ht
  exact hfact st hst id t hturn

/-- **Invariants hold in every state of a run.** -/
theorem visited (U : Upkeep cfg cond γ) {started : NodeId → ℕ} {h : List (Step Cluster Action)}
    {c c₁ : Cluster} (hrun : ClusterRun cfg started h c) (hcond : ∀ st ∈ h, Cluster.Meets cond st)
    (hvisit : ClusterVisited cfg started h c₁) : ∃ d g, U.Holds d g c₁ := by
  obtain ⟨h', hsuf, hrun'⟩ := Run.of_visited hrun hvisit
  obtain ⟨g, hinv, _⟩ := U.run hrun' fun st hst => hcond st (hsuf.subset hst)
  exact ⟨_, g, hinv⟩

end Upkeep

/-- In every state a run went through, a node is as it started or as a turn left it. -/
theorem ClusterRun.visited_cases {cfg : Config} {started : NodeId → ℕ}
    {h : List (Step Cluster Action)} {c c₁ : Cluster} (hrun : ClusterRun cfg started h c)
    (hvisit : ClusterVisited cfg started h c₁) (id : NodeId) :
    Visited (Node.start id (cfg.seeds id) (started id)) (Cluster.turns id h) (c₁.nodes id) := by
  obtain ⟨h', hsuf, hrun'⟩ := Run.of_visited hrun hvisit
  refine (Run.visited (ClusterRun.turns_run hrun' id)).imp_right ?_
  rintro ⟨t, ht, hafter⟩
  exact ⟨t, (hsuf.sublist.filterMap _).subset ht, hafter⟩

end Server
end RaftPlayground
