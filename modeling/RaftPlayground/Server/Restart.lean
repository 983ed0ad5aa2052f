/-
# What holds across restarts

A fleet is a cluster of processes: its steps run one handler of one process, start or stop one,
or touch the packets in flight (`Fleet.Moved`).  The calls it makes on one process are a run of
a node from `Node::start` (`FleetRun.turns_run`), so what holds of every run of a node holds of
every process, however often its node was started again.

An invariant of the clusters without restarts is one of the fleets if a node that starts keeps
it, and if no turn of another process of the same node breaks it (`Upkeep.Lasting`).
-/

import RaftPlayground.Server.Fleet
import RaftPlayground.Server.Upkeep

namespace RaftPlayground
namespace Server

open Protocol Fleet

namespace Fleet

/-- The ways a step of a fleet goes. -/
inductive Moved (cfg : Config) (c : Fleet) (a : FleetAction) (c' : Fleet) : Prop
  | called {k n eff} (call : c.callOf a = some k) (env_ok : c.Admits k.proc k.env)
      (handled : (c.nodes k.proc).handle k.env k.input = some (n, eff))
      (nodes : c'.nodes = Function.update c.nodes k.proc n) (live : c'.live = c.live)
      (net : ∀ f ∈ c'.net, f ∈ c.net ∨ f.packet ∈ eff.packets k.proc.id ∨
        ∃ r ∈ c.net, r.Reaches k.proc ∧ k.input = .msg r.packet.msg ∧
          f.packet ∈ r.packet.answer eff)
  | quiet (quiet : c.callOf a = none) (nodes : c'.nodes = c.nodes)
      (live : ∀ p ∈ c'.live, p ∈ c.live ∨ p.id ∈ cfg.members)
      (net : ∀ f ∈ c'.net, f ∈ c.net ∨ ∃ r ∈ c.net, f.packet ∈ r.packet.failure)

theorem mem_flights {epoch : ℕ} {ps : List Packet} {f : Flight} (hf : f ∈ flights epoch ps) :
    f.packet ∈ ps := by
  obtain ⟨packet, hpacket, rfl⟩ := List.mem_map.1 hf
  exact hpacket

theorem call_eq_some {c c' : Fleet} {net : List Flight} {answer : Effects → List Flight}
    {k : FleetCall} (h : c.call net answer k = some c') :
    ∃ n eff, (c.nodes k.proc).handle k.env k.input = some (n, eff) ∧
      c' = { c with
        nodes := Function.update c.nodes k.proc n
        net := net ++ answer eff ++ flights k.proc.epoch (eff.packets k.proc.id)
        clock := k.env.now } := by
  simp only [call, Option.bind_eq_bind, Option.bind_eq_some_iff, Option.some.injEq] at h
  obtain ⟨⟨n, eff⟩, hn, rfl⟩ := h
  exact ⟨n, eff, hn, rfl⟩

/-- **The case analysis of a fleet step.** -/
theorem next_moved {cfg : Config} {c c' : Fleet} {a : FleetAction} (h : c.next cfg a c') :
    c.Moved cfg a c' := by
  unfold next at h
  cases a with
  | start id =>
      simp only [step, Option.ite_none_right_eq_some, Option.some.injEq] at h
      obtain ⟨hid, rfl⟩ := h
      refine .quiet rfl rfl (fun p hp => ?_) fun f hf => Or.inl hf
      rcases Finset.mem_insert.1 hp with rfl | hp
      · exact Or.inr hid
      · exact Or.inl hp
  | stop p =>
      simp only [step, Option.ite_none_right_eq_some, Option.some.injEq] at h
      obtain ⟨_, rfl⟩ := h
      exact .quiet rfl rfl (fun q hq => Or.inl (Finset.mem_of_mem_erase hq)) fun f hf => Or.inl hf
  | tick env p =>
      simp only [step, Option.ite_none_right_eq_some] at h
      obtain ⟨henv, hcall⟩ := h
      obtain ⟨n, eff, hn, rfl⟩ := call_eq_some hcall
      refine .called rfl henv hn rfl rfl fun f hf => ?_
      rw [List.append_nil, List.mem_append] at hf
      exact hf.imp_right fun hf => Or.inl (mem_flights hf)
  | client env p req =>
      simp only [step, Option.ite_none_right_eq_some, Option.bind_eq_bind,
        Option.bind_eq_some_iff, Option.some.injEq] at h
      obtain ⟨henv, c₁, hcall, rfl⟩ := h
      obtain ⟨n, eff, hn, rfl⟩ := call_eq_some hcall
      refine .called rfl henv hn rfl rfl fun f hf => ?_
      rw [List.append_nil, List.mem_append] at hf
      exact hf.imp_right fun hf => Or.inl (mem_flights hf)
  | deliver env f p =>
      simp only [step, Option.ite_none_right_eq_some] at h
      obtain ⟨⟨hflight, hreaches, henv⟩, hcall⟩ := h
      obtain ⟨n, eff, hn, rfl⟩ := call_eq_some hcall
      refine .called rfl henv hn rfl rfl fun q hq => ?_
      rw [List.append_assoc, List.mem_append, List.mem_append] at hq
      rcases hq with hq | hq | hq
      · exact Or.inl (List.mem_of_mem_erase hq)
      · exact Or.inr (Or.inr ⟨f, hflight, hreaches, rfl, mem_flights hq⟩)
      · exact Or.inr (Or.inl (mem_flights hq))
  | lose f =>
      simp only [step, Option.ite_none_right_eq_some, Option.some.injEq] at h
      obtain ⟨_, rfl⟩ := h
      exact .quiet rfl rfl (fun p hp => Or.inl hp) fun q hq => Or.inl (List.mem_of_mem_erase hq)
  | fail f =>
      simp only [step, Option.ite_none_right_eq_some, Option.some.injEq] at h
      obtain ⟨hf, rfl⟩ := h
      refine .quiet rfl rfl (fun p hp => Or.inl hp) fun q hq => ?_
      exact (List.mem_append.1 hq).imp List.mem_of_mem_erase fun hq => ⟨f, hf, mem_flights hq⟩

/-- The turn a step takes, with its process, if it takes one. -/
def turnOf (st : Step Fleet FleetAction) : Option (Proc × Step Node Turn) := do
  let k ← st.before.callOf st.act
  let (_, eff) ← (st.before.nodes k.proc).handle k.env k.input
  some
    (k.proc,
      { before := st.before.nodes k.proc
        act := { env := k.env, input := k.input, effects := eff }
        after := st.after.nodes k.proc })

/-- The turns of one process. -/
def turns (p : Proc) (h : List (Step Fleet FleetAction)) : List (Step Node Turn) :=
  ((h.filterMap turnOf).filter fun x => x.1 = p).map Prod.snd

/-- The turns of every node, whichever process took them. -/
def diary (h : List (Step Fleet FleetAction)) : Cluster.Diary :=
  fun id => ((h.filterMap turnOf).filter fun x => x.1.id = id).map Prod.snd

/-- Every call of a step meets the condition. -/
def Meets (cond : Env → Node → Input → Prop) (st : Step Fleet FleetAction) : Prop :=
  ∀ k, st.before.callOf st.act = some k → cond k.env (st.before.nodes k.proc) k.input

instance (cond : Env → Node → Input → Prop) [∀ env n i, Decidable (cond env n i)]
    (st : Step Fleet FleetAction) : Decidable (Meets cond st) :=
  inferInstanceAs (Decidable (∀ k, k ∈ st.before.callOf st.act → _))

section

variable {c c' : Fleet} {a : FleetAction} {h : List (Step Fleet FleetAction)} {k : FleetCall}
  {n : Node} {eff : Effects}

theorem turnOf_call (hk : c.callOf a = some k)
    (hn : (c.nodes k.proc).handle k.env k.input = some (n, eff))
    (hnodes : c'.nodes = Function.update c.nodes k.proc n) :
    turnOf ⟨c, a, c'⟩ = some (k.proc, ⟨c.nodes k.proc, ⟨k.env, k.input, eff⟩, n⟩) := by
  simp only [turnOf, hk, hn, hnodes, Function.update_self, Option.bind_eq_bind, Option.bind_some]

theorem turnOf_quiet (hk : c.callOf a = none) : turnOf ⟨c, a, c'⟩ = none := by
  simp only [turnOf, hk, Option.bind_eq_bind, Option.bind_none]

theorem diary_call (hk : c.callOf a = some k)
    (hn : (c.nodes k.proc).handle k.env k.input = some (n, eff))
    (hnodes : c'.nodes = Function.update c.nodes k.proc n) :
    diary (⟨c, a, c'⟩ :: h) =
      Cluster.Diary.turn (diary h) k.proc.id ⟨c.nodes k.proc, ⟨k.env, k.input, eff⟩, n⟩ := by
  funext id
  rw [diary, List.filterMap_cons_some (turnOf_call hk hn hnodes), Cluster.Diary.turn]
  by_cases hid : id = k.proc.id
  · rw [hid, Function.update_self, List.filter_cons_of_pos (by simp), List.map_cons]
    rfl
  · rw [Function.update_of_ne hid, List.filter_cons_of_neg (by simpa using Ne.symm hid)]
    rfl

theorem diary_quiet (hk : c.callOf a = none) : diary (⟨c, a, c'⟩ :: h) = diary h := by
  funext id
  rw [diary, List.filterMap_cons_none (turnOf_quiet hk)]
  rfl

end

/-- The turns of a node meet what the calls of the fleet meet. -/
theorem meets_diary {cond : Env → Node → Input → Prop} {h : List (Step Fleet FleetAction)}
    (hmeets : ∀ st ∈ h, Meets cond st) (id : NodeId) :
    ∀ t ∈ diary h id, cond t.act.env t.before t.act.input := by
  intro t ht
  obtain ⟨x, hx, rfl⟩ := List.mem_map.1 ht
  obtain ⟨st, hst, hturn⟩ := List.mem_filterMap.1 (List.mem_filter.1 hx).1
  simp only [turnOf, Option.bind_eq_bind, Option.bind_eq_some_iff, Option.some.injEq] at hturn
  obtain ⟨k, hk, _, _, rfl⟩ := hturn
  exact hmeets st hst k hk

/-- What holds of every fleet whatever it did: who runs is a member, every process has its
place, and every packet is routed. -/
structure Sound (cfg : Config) (c : Fleet) : Prop where
  members : ∀ p ∈ c.live, p.id ∈ cfg.members
  placed : ∀ p, (c.nodes p).Placed cfg.members p.id
  routed : ∀ f ∈ c.net, f.packet.Routed cfg.members

/-- Where the input of a call comes from. -/
theorem Sound.origin {cfg : Config} {c c' : Fleet} {a : FleetAction} {k : FleetCall}
    (hsound : c.Sound cfg) (hnext : c.next cfg a c') (hk : c.callOf a = some k)
    {packet : Packet → Prop} (hnet : ∀ f ∈ c.net, packet f.packet) :
    Origin cfg.members packet k.proc.id k.input := by
  cases a with
  | start | stop | lose | fail => cases hk
  | tick =>
      obtain rfl := Option.some.inj hk
      exact .tick
  | client =>
      obtain rfl := Option.some.inj hk
      exact .client _ _
  | deliver env f p =>
      obtain rfl := Option.some.inj hk
      unfold next at hnext
      simp only [step, Option.ite_none_right_eq_some] at hnext
      obtain ⟨hflight, hreaches, _⟩ := hnext.1
      exact .packet _ (hsound.routed _ hflight) hreaches.1.symm (hnet _ hflight)

/-- **One step** keeps a fleet sound. -/
theorem Sound.next {cfg : Config} {c c' : Fleet} {a : FleetAction} (h : c.Sound cfg)
    (hnext : c.next cfg a c') : c'.Sound cfg := by
  cases next_moved hnext with
  | @called k n _ _ env_ok handled nodes live net =>
      have ht := Node.handle_turned handled
      have hid : k.proc.id ∈ cfg.members := h.members _ env_ok.1
      constructor
      case members => exact live ▸ h.members
      case placed =>
        intro p
        rw [nodes]
        by_cases hp : p = k.proc
        · subst hp
          rw [Function.update_self]
          exact (h.placed _).turned ht
        · rw [Function.update_of_ne hp]
          exact h.placed p
      case routed =>
        intro f hf
        rcases net f hf with hf | hf | ⟨r, hr, _, _, hf⟩
        · exact h.routed f hf
        · exact ht.routed (h.placed _) hid hf
        · exact (h.routed r hr).answer hf
  | quiet _ nodes live net =>
      constructor
      case members => exact fun p hp => (live p hp).elim (h.members p) id
      case placed => exact nodes ▸ h.placed
      case routed =>
        intro f hf
        rcases net f hf with hf | ⟨r, hr, hf⟩
        · exact h.routed f hf
        · exact (h.routed r hr).failure hf

end Fleet

section

variable {cfg : Config} {began : Proc → ℕ} {h : List (Step Fleet FleetAction)} {c : Fleet}

/-- Every fleet is sound. -/
theorem FleetRun.sound (hrun : FleetRun cfg began h c) : c.Sound cfg := by
  refine Run.invariant (fun _ => True) (fun _ c => c.Sound cfg) ?_
    (fun _ _ _ _ _ hsound hnext _ => hsound.next hnext) hrun fun _ _ => trivial
  exact ⟨fun p hp => absurd hp (Finset.notMem_empty p), fun p => cfg.start_placed p.id _,
    fun f hf => absurd hf List.not_mem_nil⟩

/-- **The calls on one process are a run of a node** that starts with what `Persistent::load`
gives, whatever the processes before it stored. -/
theorem FleetRun.turns_run (hrun : FleetRun cfg began h c) (p : Proc) :
    NodeRun p.id (cfg.seeds p.id) (began p) (Fleet.turns p h) (c.nodes p) := by
  induction hrun with
  | nil => exact .nil
  | cons _ hnext ih =>
      cases Fleet.next_moved hnext with
      | @called k n eff call _ handled nodes =>
          rw [Fleet.turns, List.filterMap_cons_some (Fleet.turnOf_call call handled nodes), nodes]
          by_cases hp : p = k.proc
          · subst hp
            rw [Function.update_self, List.filter_cons_of_pos (by simp), List.map_cons]
            exact .cons ih handled
          · rw [Function.update_of_ne hp, List.filter_cons_of_neg (by simpa using Ne.symm hp)]
            exact ih
      | quiet quiet nodes =>
          rw [Fleet.turns, List.filterMap_cons_none (Fleet.turnOf_quiet quiet), nodes]
          exact ih

end

namespace Upkeep

variable {cfg : Config} {cond : Env → Node → Input → Prop} {γ : Type*} [Preorder γ]

/-- An invariant that does not mind restarts. -/
structure Lasting (U : Upkeep cfg cond γ) : Prop where
  /-- It holds of all processes before they start. -/
  fresh : ∃ g, ∀ id now, U.node (Cluster.diary []) g id (Node.start id (cfg.seeds id) now)
  /-- What is known of a process outlives the turns of all the others. -/
  lasts : ∀ {d : Cluster.Diary} {g g' : γ} {id t x n}, g ≤ g' → U.node d g x n →
    U.node (d.turn id t) g' x n

variable {U : Upkeep cfg cond γ} {began : Proc → ℕ} {h : List (Step Fleet FleetAction)}
  {c : Fleet}

/-- **Invariants hold in every run of a fleet**, if they do not mind restarts. -/
theorem Lasting.run (hU : U.Lasting) (hrun : FleetRun cfg began h c)
    (hcond : ∀ st ∈ h, Fleet.Meets cond st) :
    ∃ g, (∀ p, U.node (Fleet.diary h) g p.id (c.nodes p)) ∧
      ∀ f ∈ c.net, U.packet (Fleet.diary h) g f.packet := by
  induction hrun with
  | nil =>
      obtain ⟨g, hfresh⟩ := hU.fresh
      exact ⟨g, fun p => hfresh p.id (began p), fun f hf => absurd hf List.not_mem_nil⟩
  | @cons h c a c' hrun hnext ih =>
      rw [List.forall_mem_cons] at hcond
      obtain ⟨g, hnodes, hnet⟩ := ih hcond.2
      have hsound := FleetRun.sound hrun
      cases Fleet.next_moved hnext with
      | @called k n eff call env_ok handled nodes _ net =>
          obtain ⟨g', hle, hnode, _, hsent, hanswer, _⟩ :=
            U.turn (hsound.members _ env_ok.1) (hsound.placed _) (hnodes k.proc)
              (hsound.origin hnext call hnet) (hcond.1 k call) (Node.handle_turned handled)
          rw [Fleet.diary_call call handled nodes]
          refine ⟨g', fun p => ?_, fun f hf => ?_⟩
          · rw [nodes]
            by_cases hp : p = k.proc
            · subst hp
              rwa [Function.update_self]
            · rw [Function.update_of_ne hp]
              exact hU.lasts hle (hnodes p)
          · rcases net f hf with hf | hf | ⟨r, hr, hreaches, hinput, hf⟩
            · exact U.packet_mono hle (hnet f hf)
            · exact hsent _ hf
            · exact hanswer _ (hsound.routed r hr) hreaches.1.symm hinput (hnet r hr) _ hf
      | quiet quiet nodes _ net =>
          rw [Fleet.diary_quiet quiet, nodes]
          refine ⟨g, hnodes, fun f hf => ?_⟩
          rcases net f hf with hf | ⟨r, hr, hf⟩
          · exact hnet f hf
          · obtain ⟨src, dst, b, heq⟩ := Cluster.mem_failure hf
            rw [heq]
            exact U.failed _ g src dst b

end Upkeep

/-! ## Without restarts -/

/-- The first process of a node. -/
def Proc.first (id : NodeId) : Proc := ⟨id, 0⟩

/-- The fleet of the first processes of a cluster, all of them running. -/
structure Fleet.Firsts (cfg : Config) (c : Cluster) (f : Fleet) : Prop where
  nodes : ∀ id, f.nodes (.first id) = c.nodes id
  live : ∀ id ∈ cfg.members, .first id ∈ f.live
  net : f.net = c.net.map fun packet => ⟨packet, 0⟩
  clock : f.clock = c.clock
  requests : f.requests = c.requests

section

variable {cfg : Config} {started : NodeId → ℕ} {h : List (Step Cluster Action)} {c c' : Cluster}
  {f : Fleet}

theorem Fleet.Firsts.admits (hfirsts : f.Firsts cfg c) {id : NodeId} {env : Env}
    (hid : id ∈ cfg.members) (henv : c.Admits id env) : f.Admits (.first id) env := by
  refine ⟨hfirsts.live id hid, hfirsts.clock ▸ henv.1, ?_⟩
  rw [hfirsts.nodes]
  exact henv.2

/-- A call on a member is a call on its first process. -/
theorem Fleet.Firsts.call (hfirsts : f.Firsts cfg c) {net : List Packet}
    {answer : Effects → List Packet} {id : NodeId} {env : Env} {i : Input}
    (hcall : c.call net answer ⟨id, env, i⟩ = some c') :
    ∃ f', f.call (flights 0 net) (fun eff => flights 0 (answer eff)) ⟨.first id, env, i⟩ =
      some f' ∧ f'.Firsts cfg c' := by
  obtain ⟨n, eff, hn, rfl⟩ := Cluster.call_eq_some hcall
  have hn' : (f.nodes (.first id)).handle env i = some (n, eff) := (hfirsts.nodes id).symm ▸ hn
  refine ⟨_, by simp only [Fleet.call, hn', Option.bind_eq_bind, Option.bind_some]; rfl, ?_⟩
  constructor
  case nodes =>
    intro x
    by_cases hx : x = id
    · subst hx
      simp only [Function.update_self]
    · have hne : Proc.first x ≠ .first id := fun heq => hx (congrArg Proc.id heq)
      simp only [Function.update_of_ne hx, Function.update_of_ne hne]
      exact hfirsts.nodes x
  case live => exact hfirsts.live
  case net => simp only [flights, Proc.first, List.map_append]
  case clock => rfl
  case requests => exact hfirsts.requests

theorem Fleet.Firsts.net_erase (hfirsts : f.Firsts cfg c) (p : Packet) :
    f.net.erase ⟨p, 0⟩ = flights 0 (c.net.erase p) := by
  rw [hfirsts.net, flights, List.map_erase fun _ _ heq => congrArg Flight.packet heq]

/-- **One step of a cluster** is one of the fleet of its first processes. -/
theorem Fleet.Firsts.next (hfirsts : f.Firsts cfg c) (hrun : ClusterRun cfg started h c)
    {a : Action} (hnext : c.next cfg a c') :
    ∃ b f', f.next cfg b f' ∧ f'.Firsts cfg c' := by
  have hflight : ∀ {p}, p ∈ c.net → (⟨p, 0⟩ : Flight) ∈ f.net := fun hp =>
    hfirsts.net ▸ List.mem_map_of_mem hp
  unfold Cluster.next at hnext
  cases a with
  | tick env id =>
      simp only [Cluster.step, Option.ite_none_right_eq_some] at hnext
      obtain ⟨⟨hid, henv⟩, hcall⟩ := hnext
      obtain ⟨f', hcall', hfirsts'⟩ := hfirsts.call hcall
      refine ⟨.tick env (.first id), f', ?_, hfirsts'⟩
      rw [Fleet.next, Fleet.step, if_pos (hfirsts.admits hid henv), hfirsts.net]
      exact hcall'
  | client env id req =>
      simp only [Cluster.step, Option.ite_none_right_eq_some, Option.bind_eq_bind,
        Option.bind_eq_some_iff, Option.some.injEq] at hnext
      obtain ⟨⟨hid, henv⟩, c₁, hcall, rfl⟩ := hnext
      obtain ⟨f', hcall', hfirsts'⟩ := hfirsts.call hcall
      refine ⟨.client env (.first id) req, { f' with requests := f.requests + 1 }, ?_, ?_⟩
      · rw [Fleet.next, Fleet.step, if_pos (hfirsts.admits hid henv), hfirsts.net,
          hfirsts.requests]
        exact Option.bind_eq_some_iff.2 ⟨f', hcall', rfl⟩
      · exact ⟨hfirsts'.nodes, hfirsts'.live, hfirsts'.net, hfirsts'.clock,
          congrArg (· + 1) hfirsts.requests⟩
  | deliver env p =>
      simp only [Cluster.step, Option.ite_none_right_eq_some] at hnext
      obtain ⟨⟨hp, henv⟩, hcall⟩ := hnext
      have hdst := (hrun.routed p hp).dst_mem
      obtain ⟨f', hcall', hfirsts'⟩ := hfirsts.call hcall
      refine ⟨.deliver env ⟨p, 0⟩ (.first p.dst), f', ?_, hfirsts'⟩
      have hreaches : (⟨p, 0⟩ : Flight).Reaches (.first p.dst) := ⟨rfl, fun _ => rfl⟩
      rw [Fleet.next, Fleet.step, if_pos ⟨hflight hp, hreaches, hfirsts.admits hdst henv⟩,
        hfirsts.net_erase]
      exact hcall'
  | lose p =>
      simp only [Cluster.step, Option.ite_none_right_eq_some, Option.some.injEq] at hnext
      obtain ⟨hp, rfl⟩ := hnext
      refine ⟨.lose ⟨p, 0⟩, _, if_pos (hflight hp), ?_⟩
      exact ⟨hfirsts.nodes, hfirsts.live, hfirsts.net_erase p, hfirsts.clock, hfirsts.requests⟩
  | fail p =>
      simp only [Cluster.step, Option.ite_none_right_eq_some, Option.some.injEq] at hnext
      obtain ⟨hp, rfl⟩ := hnext
      refine ⟨.fail ⟨p, 0⟩, _, if_pos (hflight hp), ?_⟩
      refine ⟨hfirsts.nodes, hfirsts.live, ?_, hfirsts.clock, hfirsts.requests⟩
      show f.net.erase ⟨p, 0⟩ ++ flights 0 p.failure = _
      rw [hfirsts.net_erase, flights, flights, ← List.map_append]

end

/-- The members of a cluster are started one after the other. -/
theorem FleetRun.exists_started {cfg : Config} {began : Proc → ℕ} {l : List NodeId}
    (hl : ∀ id ∈ l, id ∈ cfg.members) (hnodup : l.Nodup) :
    ∃ h f, FleetRun cfg began h f ∧ f = { Fleet.init cfg began with
      live := f.live, epochs := f.epochs } ∧
      (∀ id ∈ l, .first id ∈ f.live) ∧ ∀ id, id ∉ l → f.epochs id = 0 := by
  induction l with
  | nil => exact ⟨[], _, .nil, rfl, fun _ h => absurd h List.not_mem_nil, fun _ _ => rfl⟩
  | cons id l ih =>
      rw [List.forall_mem_cons] at hl
      obtain ⟨hid, hnodup⟩ := List.nodup_cons.1 hnodup
      obtain ⟨h, f, hrun, hinit, hlive, hepochs⟩ := ih hl.2 hnodup
      have hnext : f.next cfg (.start id) _ := if_pos hl.1
      refine ⟨_, _, .cons hrun hnext, ?_, ?_, ?_⟩
      · rw [hinit]
      · intro x hx
        rcases List.mem_cons.1 hx with rfl | hx
        · show (.first x : Proc) ∈ insert ⟨x, f.epochs x⟩ f.live
          rw [hepochs x hid]
          exact Finset.mem_insert_self ..
        · exact Finset.mem_insert_of_mem (hlive x hx)
      · intro x hx
        rw [List.mem_cons, not_or] at hx
        show Function.update f.epochs id (f.epochs id + 1) x = 0
        rw [Function.update_of_ne hx.1]
        exact hepochs x hx.2

/-- **Every run of a cluster is one of a fleet** in which each member is started once. -/
theorem ClusterRun.exists_fleetRun {cfg : Config} {started : NodeId → ℕ}
    {h : List (Step Cluster Action)} {c : Cluster} (hrun : ClusterRun cfg started h c) :
    ∃ h' f, FleetRun cfg (fun p => started p.id) h' f ∧ f.Firsts cfg c := by
  induction hrun with
  | nil =>
      obtain ⟨h, f, hrun, hinit, hlive, _⟩ :=
        @FleetRun.exists_started cfg (fun p => started p.id) _ (fun _ hid => hid) cfg.nodup
      refine ⟨h, f, hrun, ?_⟩
      rw [hinit]
      exact ⟨fun _ => rfl, hlive, rfl, rfl, rfl⟩
  | cons hrun hnext ih =>
      obtain ⟨h', f, hrun', hfirsts⟩ := ih
      obtain ⟨b, f', hnext', hfirsts'⟩ := hfirsts.next hrun hnext
      exact ⟨_, f', hrun'.cons hnext', hfirsts'⟩

end Server
end RaftPlayground
