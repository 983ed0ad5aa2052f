/-
# The console and its cluster

The console with the fleet of the managed servers it runs.  A worker that connects to a new managed
server starts a process of the fleet under its port; one that was told to shut down stops at some
later time, and nobody waits for it.  All else the fleet does goes on between the steps of the
console.

The fleet is one of the cluster of the rows: what `Node::new` makes of the port and the seeds of a
server is the member of that cluster, so every run of the two is a run of the console beside a run
of a fleet, to which all that holds across restarts applies (`playground_runs_fleet`).  Of the
processes of a member only the one that was started last is not told to shut down.
-/

import RaftPlayground.Repl.Servers
import RaftPlayground.Server.Restart

namespace RaftPlayground
namespace Repl

open Protocol
open Server (Bytes Config Fleet FleetAction FleetRun Proc localhost)

/-- The cluster of so many nodes on the local host. -/
def clusterOf (count : ℕ) (two_le : 2 ≤ count) (fits : count ≤ 2 ^ 16) : Config where
  members := (Console.allNodes count).map localhost
  nodup := (nodup_allNodes fits).map fun _ _ h => congrArg Server.NodeId.port h
  two_le := by
    rw [List.length_map, Console.allNodes, List.length_map, List.length_range]
    exact two_le

/-- The process of the server with the number, of those that were started on the ports. -/
def procAt (ports : List ℕ) (k : ℕ) : Option Proc :=
  ports[k]?.map fun port => { id := localhost port, epoch := (ports.take k).count port }

/-- The ports of some servers. -/
def ports (managed : List Managed) : List ℕ := managed.map Managed.port

/-- The process is that of a server that was told to shut down. -/
def WasTold (managed : List Managed) (q : Proc) : Prop :=
  ∃ k ∈ List.range managed.length,
    procAt (ports managed) k = some q ∧ managed[k]?.any Managed.told = true

instance (managed : List Managed) (q : Proc) : Decidable (WasTold managed q) :=
  inferInstanceAs (Decidable (∃ k ∈ _, _))

/-- The console and the fleet of its servers. -/
structure Playground where
  console : Console
  fleet : Fleet

/-- What may happen next. -/
inductive PlaygroundAction
  | console (a : ConsoleAction)
  | servers (a : FleetAction)

namespace Playground

/-- A process is started for each of the servers. -/
def launch (cfg : Config) (fleet : Fleet) : List Managed → Option Fleet
  | [] => some fleet
  | s :: rest => do
    let fleet ← fleet.step cfg (.start (localhost s.port))
    launch cfg fleet rest

/-- The fleet may do it by itself: it starts nothing, and stops what was told to. -/
def Allows (p : Playground) : FleetAction → Prop
  | .start _ => False
  | .stop q => WasTold p.console.procs.managed q
  | .tick .. | .client .. | .deliver .. | .lose _ | .fail _ => True

instance (p : Playground) : DecidablePred p.Allows
  | .start _ => isFalse id
  | .stop q => inferInstanceAs (Decidable (WasTold _ q))
  | .tick .. | .client .. | .deliver .. | .lose _ | .fail _ => isTrue trivial

/-- One step; `none` where the action is not possible, and where the console panics. -/
def step (lib : Lib) (cfg : Config) (p : Playground) : PlaygroundAction → Option Playground
  | .console a => do
    let console ← p.console.step lib a
    let started := console.procs.managed.drop p.console.procs.managed.length
    let fleet ← launch cfg p.fleet started
    some { console, fleet }
  | .servers a =>
    if p.Allows a then (p.fleet.step cfg a).map fun fleet => { p with fleet } else none

/-- The action `a` takes the playground `p` to `p'`. -/
def next (lib : Lib) (cfg : Config) (p : Playground) (a : PlaygroundAction) (p' : Playground) :
    Prop :=
  p.step lib cfg a = some p'

end Playground

/-- The runs of the console over a history file with the bytes, and of the fleet of its servers. -/
def PlaygroundRun (lib : Lib) (content : Bytes) (cfg : Config) (began : Proc → ℕ)
    (h : List (Step Playground PlaygroundAction)) (p : Playground) : Prop :=
  ∃ calls console, Console.new content calls = some console ∧
    Run (Playground.next lib cfg) { console, fleet := Fleet.init cfg began } h p

/-- A run over an empty file whose processes start at the instant `0`, by evaluation. -/
theorem PlaygroundRun.exists_of_replay (lib : Lib) (cfg : Config) (as : List PlaygroundAction)
    (P : List (Step Playground PlaygroundAction) → Playground → Prop) [∀ h p, Decidable (P h p)]
    (hcheck : ((Console.new [] []).bind fun console => replay (Playground.step lib cfg) []
      { console, fleet := Fleet.init cfg fun _ => 0 } as).any
      (fun x => decide (P x.1 x.2)) = true) :
    ∃ h p, PlaygroundRun lib [] cfg (fun _ => 0) h p ∧ P h p := by
  rw [Option.any_bind] at hcheck
  obtain ⟨console, hnew, hcheck⟩ := (Option.any_eq_true _ _).1 hcheck
  obtain ⟨h, p, hrun, hP⟩ := Run.exists_of_replay as P hcheck
  exact ⟨h, p, ⟨[], console, hnew, hrun⟩, hP⟩

/-- While the console runs, there is no row, or there are so many. -/
def Console.Spawns (count : ℕ) (c : Console) : Prop :=
  c.phase = .running → c.nodes.length = 0 ∨ c.nodes.length = count

instance (count : ℕ) (c : Console) : Decidable (c.Spawns count) :=
  inferInstanceAs (Decidable (_ → _ ∨ _))

/-- What the console and the fleet have to do with each other. -/
structure Launched (cfg : Config) (p : Playground) : Prop where
  /-- Every server is the member of the cluster under its port, with the seeds of the member. -/
  member : ∀ s ∈ p.console.procs.managed, localhost s.port ∈ cfg.members ∧
    s.seeds.map (fun port => Server.Seed.new (localhost port)) = cfg.seeds (localhost s.port)
  /-- Every process that runs is that of one server. -/
  started : ∀ q ∈ p.fleet.live, ∃! k, procAt (ports p.console.procs.managed) k = some q
  /-- A server that was not told to shut down runs, and no other of its member was started later. -/
  runs : ∀ k s, Untold p.console.procs.managed k s → ∃ q ∈ p.fleet.live,
    procAt (ports p.console.procs.managed) k = some q ∧ q.epoch + 1 = p.fleet.epochs q.id

/-! ### The processes of the servers -/

section

variable {l : List ℕ} {k k' port : ℕ} {q : Proc}

theorem procAt_append_of_lt (hk : k < l.length) (port : ℕ) :
    procAt (l ++ [port]) k = procAt l k := by
  rw [procAt, procAt, List.getElem?_append_left hk, List.take_append_of_le_length hk.le]

theorem procAt_append_length (l : List ℕ) (port : ℕ) :
    procAt (l ++ [port]) l.length = some { id := localhost port, epoch := l.count port } := by
  rw [procAt, List.getElem?_concat_length, List.take_left' rfl]
  rfl

theorem procAt_eq_none (hk : l.length ≤ k) : procAt l k = none := by
  rw [procAt, List.getElem?_eq_none hk]
  rfl

/-- One server was started later than the other, and has another process. -/
theorem procAt_ne_of_lt (hlt : k < k') (hk : procAt l k = some q) : procAt l k' ≠ some q := by
  intro hk'
  obtain ⟨port, hport, rfl⟩ := Option.map_eq_some_iff.1 hk
  obtain ⟨port', _, hsame⟩ := Option.map_eq_some_iff.1 hk'
  obtain rfl : port' = port := congrArg (fun q => q.id.port) hsame
  have hcount : (l.take k').count port' = (l.take k).count port' := congrArg Proc.epoch hsame
  have hnext : (l.take (k + 1)).count port' = (l.take k).count port' + 1 := by
    rw [List.take_add_one, hport, List.count_append]
    simp
  have hprefix : (l.take (k + 1)).count port' ≤ (l.take k').count port' :=
    (List.take_sublist_take_left hlt).count_le _
  omega

/-- A process is that of one server. -/
theorem procAt_inj (hk : procAt l k = some q) (hk' : procAt l k' = some q) : k = k' := by
  rcases lt_trichotomy k k' with hlt | heq | hlt
  · exact absurd hk' (procAt_ne_of_lt hlt hk)
  · exact heq
  · exact absurd hk (procAt_ne_of_lt hlt hk')

end

/-! ### The servers a step of the console tells and starts -/

/-- No server is started, and some may be told to shut down. -/
structure Quieter (managed managed' : List Managed) : Prop where
  ports_eq : ports managed' = ports managed
  untold : ∀ k s, Untold managed' k s → Untold managed k s

/-- What a step of the console does to the list of servers. -/
inductive Lists (managed managed' : List Managed) : Prop
  | quieter (quieter : Quieter managed managed')
  | started {managed₁ s} (quieter : Quieter managed managed₁) (told : s.told = false)
      (list : managed' = managed₁ ++ [s])

section

variable {lib : Lib} {c c' : Console} {a : ConsoleAction} {managed managed' : List Managed}

theorem Quieter.refl (managed : List Managed) : Quieter managed managed := ⟨rfl, fun _ _ => id⟩

theorem Quieter.length_eq (h : Quieter managed managed') : managed'.length = managed.length := by
  have hlength := congrArg List.length h.ports_eq
  rwa [ports, ports, List.length_map, List.length_map] at hlength

theorem quieter_shutdown (o : Option ℕ) (procs : Procs) :
    Quieter procs.managed (o.elim procs procs.shutdown).managed where
  ports_eq := by
    refine List.ext_getElem? fun k => ?_
    rw [ports, ports, List.getElem?_map, List.getElem?_map, getElem?_shutdown]
    cases procs.managed[k]? with
    | none => rfl
    | some s =>
        simp only [Option.map_some]
        split_ifs <;> rfl
  untold k s := by
    rintro ⟨hs, htold⟩
    rw [getElem?_shutdown] at hs
    obtain ⟨s₀, hs₀, rfl⟩ := Option.map_eq_some_iff.1 hs
    split_ifs at htold ⊢
    exact ⟨hs₀, htold⟩

theorem lists_of_ran {handler handler' : CommandHandler} {procs procs' : Procs} {cmd : NodeCmd}
    (hran : handler.Ran procs cmd handler' procs') : Lists procs.managed procs'.managed := by
  cases hran with
  | kept => exact .quieter (.refl _)
  | stopped _ _ told => exact .quieter (told ▸ quieter_shutdown _ _)
  | started _ _ _ told => exact .started (quieter_shutdown _ _) rfl told

theorem lists_of_next (hnext : c.next lib a c') : Lists c.procs.managed c'.procs.managed := by
  cases Console.next_moved hnext with
  | pressed | reported | polled | sent | ponged | drawn | asked | closed | reaped =>
      exact .quieter (.refl _)
  | handled _ _ _ _ frame =>
      rw [frame.procs]
      exact .quieter (.refl _)
  | @worked i remote n cmd => exact lists_of_ran (CommandHandler.run_ran remote _ c.procs cmd)

end

/-! ### What holds between the servers and the fleet -/

/-- What the list of servers and the fleet have to do with each other. -/
structure Linked (managed : List Managed) (fleet : Fleet) : Prop where
  epochs : ∀ port, fleet.epochs (localhost port) = (ports managed).count port
  started : ∀ q ∈ fleet.live, ∃ k, procAt (ports managed) k = some q
  runs : ∀ k s, Untold managed k s → ∃ q ∈ fleet.live,
    procAt (ports managed) k = some q ∧ q.epoch + 1 = fleet.epochs q.id

namespace Linked

variable {cfg : Config} {managed managed' : List Managed} {fleet fleet' : Fleet}

theorem quieter (h : Linked managed fleet) (hq : Quieter managed managed') :
    Linked managed' fleet where
  epochs port := hq.ports_eq ▸ h.epochs port
  started q hmem := hq.ports_eq ▸ h.started q hmem
  runs k s hs := hq.ports_eq ▸ h.runs k s (hq.untold k s hs)

/-- A process that was told to shut down stops. -/
theorem stop (h : Linked managed fleet) {q : Proc} (hq : WasTold managed q) :
    Linked managed { fleet with live := fleet.live.erase q } where
  epochs := h.epochs
  started q' hq' := h.started q' (Finset.mem_of_mem_erase hq')
  runs k s hs := by
    obtain ⟨q', hq', hproc, hlast⟩ := h.runs k s hs
    refine ⟨q', Finset.mem_erase.2 ⟨?_, hq'⟩, hproc, hlast⟩
    rintro rfl
    obtain ⟨k', _, hproc', htold⟩ := hq
    rw [procAt_inj hproc' hproc, hs.1, Option.any_some, hs.2] at htold
    cases htold

/-- Nothing is started, and nothing stops. -/
theorem keep (h : Linked managed fleet) (hlive : fleet'.live = fleet.live)
    (hepochs : fleet'.epochs = fleet.epochs) : Linked managed fleet' where
  epochs := hepochs ▸ h.epochs
  started := hlive ▸ h.started
  runs := by
    rw [hlive, hepochs]
    exact h.runs

/-- A server is started on a port under which all others were told to shut down. -/
theorem start (h : Linked managed fleet) {s : Managed} (hmem : localhost s.port ∈ cfg.members)
    (hother : ∀ k s', Untold managed k s' → s'.port ≠ s.port) :
    ∃ fleet', fleet.step cfg (.start (localhost s.port)) = some fleet' ∧
      Linked (managed ++ [s]) fleet' := by
  have hports : ports (managed ++ [s]) = ports managed ++ [s.port] := List.map_append
  refine ⟨_, if_pos hmem, ?_⟩
  constructor
  case epochs =>
    intro port
    rw [hports, List.count_append]
    by_cases hport : port = s.port
    · subst hport
      simp [h.epochs s.port]
    · have hid : localhost port ≠ localhost s.port := fun heq =>
        hport (congrArg Server.NodeId.port heq)
      simp [Function.update_of_ne hid, h.epochs port, Ne.symm hport]
  case started =>
    intro q hq
    rcases Finset.mem_insert.1 hq with rfl | hq
    · refine ⟨(ports managed).length, ?_⟩
      rw [hports, procAt_append_length, h.epochs]
    · obtain ⟨k, hk⟩ := h.started q hq
      have hlt : k < (ports managed).length := by
        by_contra hle
        rw [procAt_eq_none (not_lt.1 hle)] at hk
        cases hk
      exact ⟨k, by rw [hports, procAt_append_of_lt hlt, hk]⟩
  case runs =>
    rintro k s' ⟨hs', htold⟩
    rw [List.getElem?_append] at hs'
    split_ifs at hs' with hk
    · obtain ⟨q, hq, hproc, hlast⟩ := h.runs k s' ⟨hs', htold⟩
      have hlt : k < (ports managed).length := by rwa [ports, List.length_map]
      refine ⟨q, Finset.mem_insert_of_mem hq, by rw [hports, procAt_append_of_lt hlt, hproc], ?_⟩
      obtain ⟨port, hport, rfl⟩ := Option.map_eq_some_iff.1 hproc
      rw [ports, List.getElem?_map, hs'] at hport
      obtain rfl := Option.some.inj hport
      have hid : localhost s'.port ≠ localhost s.port := fun heq =>
        hother k s' ⟨hs', htold⟩ (congrArg Server.NodeId.port heq)
      exact hlast.trans (Function.update_of_ne hid _ _).symm
    · obtain ⟨hzero, rfl⟩ := List.getElem?_eq_some_iff.1 hs'
      rw [List.length_singleton] at hzero
      have hk' : k = (ports managed).length := by rw [ports, List.length_map]; omega
      refine ⟨⟨localhost s.port, fleet.epochs (localhost s.port)⟩, Finset.mem_insert_self _ _, ?_,
        ?_⟩
      · rw [hk', hports, procAt_append_length, h.epochs]
      · exact (Function.update_self (localhost s.port) _ fleet.epochs).symm

/-- **One step of the console**: the servers it starts can be started, and are linked. -/
theorem console (h : Linked managed fleet) (hlists : Lists managed managed') {count : ℕ}
    {c : Console} (hmanaged : c.procs.managed = managed') (hmanaging : Managing count c)
    (hfits : count ≤ 2 ^ 16) (hmem : ∀ s ∈ managed', localhost s.port ∈ cfg.members) :
    ∃ hs fleet', Playground.launch cfg fleet (managed'.drop managed.length) = some fleet' ∧
      Run (Fleet.next cfg) fleet hs fleet' ∧ Linked managed' fleet' := by
  cases hlists with
  | quieter hq =>
      have hnone : managed'.drop managed.length = [] := by rw [← hq.length_eq, List.drop_length]
      exact ⟨[], fleet, by rw [hnone, Playground.launch], .nil, h.quieter hq⟩
  | @started managed₁ s hq htold hlist =>
      have hone : managed'.drop managed.length = [s] := by
        rw [hlist, ← hq.length_eq, List.drop_left']
        rfl
      have hs : Untold managed' managed₁.length s :=
        ⟨by rw [hlist, List.getElem?_concat_length], htold⟩
      have hother : ∀ k s', Untold managed₁ k s' → s'.port ≠ s.port := by
        rintro k s' ⟨hs', htold'⟩ hport
        have hk : k < managed₁.length := (List.getElem?_eq_some_iff.1 hs').1
        have hs'' : Untold managed' k s' :=
          ⟨by rw [hlist, List.getElem?_append_left hk, hs'], htold'⟩
        subst hmanaged
        exact absurd (hmanaging.apart hfits k _ s' s hs'' hs hport) hk.ne
      have hsmem : s ∈ managed' := List.mem_of_getElem? hs.1
      obtain ⟨fleet', hstep, hlinked⟩ := (h.quieter hq).start (hmem s hsmem) hother
      refine ⟨_, fleet', ?_, Run.nil.cons hstep, hlist ▸ hlinked⟩
      rw [hone, Playground.launch, hstep]
      rfl

end Linked

/-! ### Runs -/

section

variable {lib : Lib} {content : Bytes} {count : ℕ} {two_le : 2 ≤ count} {fits : count ≤ 2 ^ 16}
  {began : Proc → ℕ} {h : List (Step Playground PlaygroundAction)} {p p' : Playground}

/-- The servers of a plan are members of the cluster, with its seeds. -/
theorem Planned.member {n : ℕ} {c : Console} (hplanned : Planned n c) (hn : n = 0 ∨ n = count)
    {s : Managed} (hs : s ∈ c.procs.managed) :
    localhost s.port ∈ (clusterOf count two_le fits).members ∧
      s.seeds.map (fun port => Server.Seed.new (localhost port)) =
        (clusterOf count two_le fits).seeds (localhost s.port) := by
  obtain ⟨hport, hseeds, _⟩ := hplanned.cluster s hs
  obtain rfl : n = count := by
    refine hn.resolve_left fun hzero => ?_
    obtain ⟨i, hi, _⟩ := mem_allNodes.1 hport
    omega
  refine ⟨List.mem_map_of_mem hport, ?_⟩
  rw [hseeds, others, Config.seeds, clusterOf, List.filter_map, List.map_map]
  refine congrArg _ (List.filter_congr fun port _ => ?_)
  simp [localhost]

/-- What is true of the playground in every run. -/
structure Sited (count : ℕ) (p : Playground) : Prop where
  sound : p.console.Sound
  planned : ∃ n, (n = 0 ∨ n = count) ∧ Planned n p.console
  linked : Linked p.console.procs.managed p.fleet

/-- **One step of the console** is one of the playground, and some of the fleet. -/
theorem Sited.console (two_le : 2 ≤ count) (fits : count ≤ 2 ^ 16) (hp : Sited count p)
    {a : ConsoleAction} {c : Console} (hnext : p.console.next lib a c) (hspawns : c.Spawns count) :
    ∃ hs fleet, p.next lib (clusterOf count two_le fits) (.console a) { console := c, fleet } ∧
      Run (Fleet.next (clusterOf count two_le fits)) p.fleet hs fleet ∧
        Sited count { console := c, fleet } := by
  obtain ⟨n, hn, hplanned⟩ := hp.planned
  obtain ⟨n', hplanned', hspawned⟩ := hplanned.next hp.sound hnext
  have hn' : n' = 0 ∨ n' = count := by
    rcases hspawned with rfl | ⟨hrunning, _⟩
    · exact hn
    · exact hplanned'.all hrunning ▸ hspawns hrunning
  have hfits : n' ≤ 2 ^ 16 := by
    rcases hn' with rfl | rfl
    · exact Nat.zero_le _
    · exact fits
  have hmem : ∀ s ∈ c.procs.managed, localhost s.port ∈ (clusterOf count two_le fits).members :=
    fun s hs => (hplanned'.member hn' hs).1
  obtain ⟨hs, fleet, hlaunch, hrun, hlinked⟩ :=
    hp.linked.console (lists_of_next hnext) rfl hplanned'.managing hfits hmem
  refine ⟨hs, fleet, ?_, hrun, hp.sound.next hnext, ⟨n', hn', hplanned'⟩, hlinked⟩
  exact Option.bind_eq_some_iff.2 ⟨c, hnext, Option.bind_eq_some_iff.2 ⟨fleet, hlaunch, rfl⟩⟩

/-- What the fleet does by itself starts nothing, and stops what was told to. -/
theorem Sited.servers {cfg : Config} (hp : Sited count p) {a : FleetAction} {fleet : Fleet}
    (hallows : p.Allows a) (hstep : p.fleet.step cfg a = some fleet) :
    Sited count { p with fleet } := by
  refine ⟨hp.sound, hp.planned, ?_⟩
  have hlinked := hp.linked
  cases a with
  | start => exact absurd hallows id
  | stop q =>
      simp only [Fleet.step, Option.ite_none_right_eq_some, Option.some.injEq] at hstep
      obtain ⟨_, rfl⟩ := hstep
      exact hlinked.stop hallows
  | tick env q =>
      simp only [Fleet.step, Option.ite_none_right_eq_some] at hstep
      obtain ⟨_, _, _, rfl⟩ := Fleet.call_eq_some hstep.2
      exact hlinked.keep rfl rfl
  | client env q req =>
      simp only [Fleet.step, Option.ite_none_right_eq_some, Option.bind_eq_bind,
        Option.bind_eq_some_iff, Option.some.injEq] at hstep
      obtain ⟨_, fleet₁, hcall, rfl⟩ := hstep
      obtain ⟨_, _, _, rfl⟩ := Fleet.call_eq_some hcall
      exact hlinked.keep rfl rfl
  | deliver env f q =>
      simp only [Fleet.step, Option.ite_none_right_eq_some] at hstep
      obtain ⟨_, _, _, rfl⟩ := Fleet.call_eq_some hstep.2
      exact hlinked.keep rfl rfl
  | lose f | fail f =>
      simp only [Fleet.step, Option.ite_none_right_eq_some, Option.some.injEq] at hstep
      obtain ⟨_, rfl⟩ := hstep
      exact hlinked.keep rfl rfl

/-- **Every playground is sited**, and its run is a run of the console beside one of the fleet. -/
theorem PlaygroundRun.sited
    (hrun : PlaygroundRun lib content (clusterOf count two_le fits) began h p)
    (hspawns : ∀ st ∈ h, st.after.console.Spawns count) :
    Sited count p ∧ (∃ hc, ConsoleRun lib content hc p.console) ∧
      ∃ hf, FleetRun (clusterOf count two_le fits) began hf p.fleet := by
  obtain ⟨calls, console, hnew, hrun⟩ := hrun
  induction hrun with
  | nil =>
      have hplanned := planned_new hnew
      have hconsole : ConsoleRun lib content [] console := ⟨calls, console, hnew, .nil⟩
      refine ⟨⟨hconsole.sound, ⟨0, Or.inl rfl, hplanned⟩, ?_⟩, ⟨[], hconsole⟩, [], .nil⟩
      have hnone : console.procs.managed = [] := by
        obtain ⟨state, _, heq⟩ := Option.bind_eq_some_iff.1 hnew
        obtain rfl := Option.some.inj heq
        rfl
      show Linked console.procs.managed (Fleet.init _ began)
      rw [hnone]
      refine ⟨fun _ => rfl, fun q hq => absurd hq (Finset.notMem_empty q), fun k s hs => ?_⟩
      cases hs.1
  | @cons h p a p' hrun hnext ih =>
      rw [List.forall_mem_cons] at hspawns
      obtain ⟨hp, ⟨hc, calls', init, hinit, hconsole⟩, hf, hfleet⟩ := ih hspawns.2
      cases a with
      | console a =>
          obtain ⟨c, hstep, hrest⟩ := Option.bind_eq_some_iff.1 hnext
          obtain ⟨fleet', _, heq⟩ := Option.bind_eq_some_iff.1 hrest
          obtain rfl := Option.some.inj heq
          obtain ⟨hs, fleet, hnext', hrun', hp'⟩ := hp.console two_le fits hstep hspawns.1
          obtain ⟨_, rfl⟩ := Playground.mk.inj (Option.some.inj (hnext.symm.trans hnext'))
          exact ⟨hp', ⟨_, calls', init, hinit, hconsole.cons hstep⟩, _, hfleet.append hrun'⟩
      | servers a =>
          simp only [Playground.next, Playground.step, Option.ite_none_right_eq_some,
            Option.map_eq_some_iff] at hnext
          obtain ⟨hallows, fleet, hstep, rfl⟩ := hnext
          exact ⟨hp.servers hallows hstep, ⟨hc, calls', init, hinit, hconsole⟩, _,
            hfleet.cons hstep⟩

/-- **The managed servers are a fleet of the cluster that is spawned.**  In every run in which the
cluster that is spawned has so many nodes, the console goes through one of its runs and the servers
through a run of the fleet of that cluster, each server as the member under its port, and of the
processes of a member only the one that was started last is not told to shut down.  And whatever the
console can do, the two can do. -/
theorem playground_runs_fleet
    (hrun : PlaygroundRun lib content (clusterOf count two_le fits) began h p)
    (hspawns : ∀ st ∈ h, st.after.console.Spawns count) :
    (∃ hc, ConsoleRun lib content hc p.console) ∧
      (∃ hf, FleetRun (clusterOf count two_le fits) began hf p.fleet) ∧
      Launched (clusterOf count two_le fits) p ∧
      ∀ a c, p.console.next lib a c → c.Spawns count →
        ∃ fleet, p.next lib (clusterOf count two_le fits) (.console a) { console := c, fleet } := by
  obtain ⟨hp, hconsole, hfleet⟩ := hrun.sited hspawns
  refine ⟨hconsole, hfleet, ?_, fun a c hnext hc => ?_⟩
  · obtain ⟨n, hn, hplanned⟩ := hp.planned
    constructor
    case member => exact fun s hs => hplanned.member hn hs
    case started =>
      intro q hq
      obtain ⟨k, hk⟩ := hp.linked.started q hq
      exact ⟨k, hk, fun k' hk' => procAt_inj hk' hk⟩
    case runs => exact hp.linked.runs
  · obtain ⟨_, fleet, hstep, _⟩ := hp.console two_le fits hnext hc
    exact ⟨fleet, hstep⟩

end

/-- Three nodes are spawned, and the first is restarted while its election is under way.  The
process that was told to shut down goes on for a while. -/
def restartedInElection : List PlaygroundAction :=
  let remote := Remote.sample []
  let A := localhost 2113
  let C := localhost 2115
  let spawn : List ConsoleAction :=
    typed "spawn --count 3" ++ [.work 0 remote, .work 1 remote, .work 2 remote]
  let restart : List ConsoleAction := typed "restart --node 0" ++ [.send 0, .work 0 remote]
  spawn.map .console ++ [.servers (.tick ⟨0, 150⟩ ⟨A, 0⟩)] ++
    restart.map .console ++
      [.servers (.deliver ⟨1, 150⟩ ⟨.voteReq A C ⟨A, 1, 0, 0⟩, 0⟩ ⟨C, 0⟩),
        .servers (.deliver ⟨2, 150⟩ ⟨.voteResp C A 1 true, 0⟩ ⟨A, 0⟩), .servers (.stop ⟨A, 0⟩)]

/-- The first member was restarted in its election, and the thread that was told to stop is gone. -/
theorem playground_runs_fleet_restartedInElection :
    ∃ h p, PlaygroundRun .sample [] (clusterOf 3 (by decide) (by decide)) (fun _ => 0) h p ∧
      p.fleet.live = {⟨localhost 2113, 1⟩, ⟨localhost 2114, 0⟩, ⟨localhost 2115, 0⟩} ∧
        Launched (clusterOf 3 (by decide) (by decide)) p := by
  obtain ⟨h, p, hrun, hspawns, hlive⟩ := PlaygroundRun.exists_of_replay .sample
    (clusterOf 3 (by decide) (by decide)) restartedInElection
    (fun h p => (∀ st ∈ h, st.after.console.Spawns 3) ∧
      p.fleet.live = {⟨localhost 2113, 1⟩, ⟨localhost 2114, 0⟩, ⟨localhost 2115, 0⟩})
    (by decide +kernel)
  exact ⟨h, p, hrun, hlive, (playground_runs_fleet hrun hspawns).2.2.1⟩

end Repl
end RaftPlayground
