/-
# The servers a console runs

The managed servers are those of one cluster: each was started on the port of a row, with the ports
of all the other rows as its seeds, and an even number of rows starts none (`Cluster`).

A server that was not told to shut down is held by the worker of exactly one row, which is the row
of its port, so that no two such servers have the same port.  To leave tells every server to shut
down before the console is over (`servers_managed`).

Which worker holds which server is an instance of `Protocol.Owned`: a command has its worker give up
the server it holds, and may have it take a new one (`CommandHandler.Ran`).
-/

import RaftPlayground.Protocol.Owners
import RaftPlayground.Repl.Lifecycle

namespace RaftPlayground
namespace Repl

open Protocol
open Server (Bytes)

/-- The server with the number was not told to shut down. -/
def Untold (managed : List Managed) (k : ℕ) (s : Managed) : Prop :=
  managed[k]? = some s ∧ s.told = false

/-- The numbers of the servers that were not told to shut down. -/
def untold (managed : List Managed) : Set ℕ := {k | ∃ s, Untold managed k s}

/-- The server the worker of a row is connected to. -/
def held (nodes : List Node) (i : ℕ) : Option ℕ :=
  nodes[i]?.bind fun n => n.worker.handler.server

/-- The ports of all but one of so many nodes. -/
def others (count port : ℕ) : List ℕ := (Console.allNodes count).filter (· ≠ port)

/-- The servers are members of a cluster of so many nodes, which is no even number of them. -/
structure Cluster (count : ℕ) (managed : List Managed) : Prop where
  port : ∀ s ∈ managed, s.port ∈ Console.allNodes count
  seeds : ∀ s ∈ managed, s.seeds = others count s.port
  odd : count ≤ 2 ^ 16 → managed ≠ [] → count % 2 = 1

/-- What is true of the servers of a console whose user spawned so many nodes. -/
structure Managing (count : ℕ) (c : Console) : Prop where
  cluster : Cluster count c.procs.managed
  /-- A server that was not told to shut down is held in one row, which is that of its port. -/
  row : ∀ k s, Untold c.procs.managed k s →
    ∃! i, held c.nodes i = some k ∧ ∃ n, c.nodes[i]? = some n ∧ n.port = s.port
  /-- What a row holds was not told to shut down. -/
  held : ∀ i k, held c.nodes i = some k → ∃ s, Untold c.procs.managed k s
  /-- Two servers that were not told to shut down have different ports. -/
  apart : count ≤ 2 ^ 16 → ∀ k k' s s', Untold c.procs.managed k s →
    Untold c.procs.managed k' s' → s.port = s'.port → k = k'
  /-- Nothing is left to be told once the console is over. -/
  finished : c.phase = .finished → ∀ s ∈ c.procs.managed, s.told = true

/-! ### The servers one command tells and starts -/

section

variable {procs procs' : Procs} {o : Option ℕ} {k : ℕ} {s : Managed}

theorem untold_append (managed : List Managed) (port : ℕ) (seeds : List ℕ) :
    untold (managed ++ [{ port, seeds, told := false }]) =
      insert managed.length (untold managed) := by
  ext k
  rw [Set.mem_insert_iff]
  constructor
  · rintro ⟨s, hs, htold⟩
    rcases lt_trichotomy k managed.length with hk | rfl | hk
    · exact Or.inr ⟨s, (List.getElem?_append_left hk).symm.trans hs, htold⟩
    · exact Or.inl rfl
    · rw [List.getElem?_eq_none (by rw [List.length_append, List.length_singleton]; omega)] at hs
      cases hs
  · rintro (rfl | ⟨s, hs, htold⟩)
    · exact ⟨_, List.getElem?_concat_length, rfl⟩
    · have hk : k < managed.length := (List.getElem?_eq_some_iff.1 hs).1
      exact ⟨s, (List.getElem?_append_left hk).trans hs, htold⟩

/-- What the servers are after the one with the number, if any, was told. -/
theorem getElem?_shutdown : (o.elim procs procs.shutdown).managed[k]? =
    procs.managed[k]?.map fun s => if o = some k then { s with told := true } else s := by
  cases o with
  | none => simp
  | some number =>
      simp only [Option.elim_some, Procs.shutdown, List.getElem?_modify, Option.some.injEq]
      rfl

/-- A server after a command is an old one, or the one that was started. -/
theorem managed_ran {handler handler' : CommandHandler} {cmd : NodeCmd}
    (hran : handler.Ran procs cmd handler' procs') (hs : procs'.managed[k]? = some s) :
    (∃ s₀, procs.managed[k]? = some s₀ ∧ s.port = s₀.port ∧ s.seeds = s₀.seeds ∧
      (handler'.server = some k → handler.server = some k)) ∨
      (k = procs.managed.length ∧ cmd = .start s.port s.seeds .managed ∧
        (s.seeds.length + 1) % 2 ≠ 0) := by
  have hold : ∀ {o : Option ℕ}, (o.elim procs procs.shutdown).managed[k]? = some s →
      ∃ s₀, procs.managed[k]? = some s₀ ∧ s.port = s₀.port ∧ s.seeds = s₀.seeds := by
    intro o hs
    rw [getElem?_shutdown] at hs
    obtain ⟨s₀, hs₀, rfl⟩ := Option.map_eq_some_iff.1 hs
    refine ⟨s₀, hs₀, ?_⟩
    split_ifs
    · exact ⟨rfl, rfl⟩
    · exact ⟨rfl, rfl⟩
  cases hran with
  | kept => exact Or.inl ⟨s, hs, rfl, rfl, id⟩
  | stopped _ hnone told =>
      obtain ⟨s₀, hs₀, hport, hseeds⟩ := hold (told ▸ hs)
      refine Or.inl ⟨s₀, hs₀, hport, hseeds, fun h => ?_⟩
      cases hnone.symm.trans h
  | started _ odd new told =>
      rw [told, List.getElem?_append] at hs
      split_ifs at hs with hk
      · obtain ⟨s₀, hs₀, hport, hseeds⟩ := hold hs
        rw [CommandHandler.length_shutdown] at hk
        refine Or.inl ⟨s₀, hs₀, hport, hseeds, fun h => ?_⟩
        exact absurd (Option.some.inj (new.symm.trans h)) hk.ne'
      · rw [CommandHandler.length_shutdown] at hk hs
        obtain ⟨hzero, rfl⟩ := List.getElem?_eq_some_iff.1 hs
        rw [List.length_singleton] at hzero
        exact Or.inr ⟨by omega, by simp, by simpa using odd⟩

theorem untold_shutdown (o : Option ℕ) (procs : Procs) :
    untold (o.elim procs procs.shutdown).managed = {k | k ∈ untold procs.managed ∧ o ≠ some k} := by
  ext k
  constructor
  · rintro ⟨s, hs, htold⟩
    rw [getElem?_shutdown] at hs
    obtain ⟨s₀, hs₀, rfl⟩ := Option.map_eq_some_iff.1 hs
    split_ifs at htold with ho
    exact ⟨⟨s₀, hs₀, htold⟩, ho⟩
  · rintro ⟨⟨s, hs, htold⟩, ho⟩
    exact ⟨s, by rw [getElem?_shutdown, hs, Option.map_some, if_neg ho], htold⟩

/-- **One command** keeps the servers that were not told in the hands of the workers. -/
theorem owned_ran {held : ℕ → Option ℕ} {i : ℕ} {handler handler' : CommandHandler} {cmd : NodeCmd}
    (howned : Owned held (untold procs.managed)) (hi : held i = handler.server)
    (hran : handler.Ran procs cmd handler' procs') :
    Owned (Function.update held i handler'.server) (untold procs'.managed) := by
  cases hran with
  | kept =>
      rw [← hi, Function.update_eq_self]
      exact howned
  | stopped _ none told =>
      rw [none, told, untold_shutdown, ← hi]
      exact howned.release i
  | started _ _ new told =>
      rw [new, told, untold_append, CommandHandler.length_shutdown, untold_shutdown, ← hi]
      refine howned.replace fun hmem => ?_
      obtain ⟨s, hs, _⟩ := hmem
      exact absurd (List.getElem?_eq_some_iff.1 hs).1 (lt_irrefl _)

end

/-! ### The ports of a cluster -/

section

variable {count i j : ℕ}

theorem mem_allNodes {port : ℕ} :
    port ∈ Console.allNodes count ↔ ∃ i < count, (2113 + i) % 2 ^ 16 = port := by
  simp only [Console.allNodes, List.mem_map, List.mem_range]

/-- The ports of a cluster that fits differ. -/
theorem port_inj (hcount : count ≤ 2 ^ 16) (hi : i < count) (hj : j < count)
    (h : (2113 + i) % 2 ^ 16 = (2113 + j) % 2 ^ 16) : i = j := by
  omega

theorem nodup_allNodes (hcount : count ≤ 2 ^ 16) : (Console.allNodes count).Nodup := by
  refine List.Nodup.map_on (fun i hi j hj h => ?_) List.nodup_range
  exact port_inj hcount (List.mem_range.1 hi) (List.mem_range.1 hj) h

theorem length_others (hcount : count ≤ 2 ^ 16) {port : ℕ} (hport : port ∈ Console.allNodes count) :
    (others count port).length + 1 = count := by
  have hlength : (Console.allNodes count).length = count := by
    rw [Console.allNodes, List.length_map, List.length_range]
  have hfilter := (nodup_allNodes hcount).erase_eq_filter port
  have hothers : others count port = (Console.allNodes count).erase port := by
    rw [hfilter, others]
    exact List.filter_congr fun x _ => by simp [bne, beq_eq_decide]
  rw [hothers, List.length_erase_of_mem hport, hlength]
  obtain ⟨i, hi, _⟩ := mem_allNodes.1 hport
  omega

end

/-! ### What the rows hold -/

section

variable {nodes : List Node} {i : ℕ} {n n' : Node}

theorem held_eq (hn : nodes[i]? = some n) : held nodes i = n.worker.handler.server := by
  rw [held, hn, Option.bind_some]

/-- What the rows hold once one was replaced. -/
theorem held_set (hn : nodes[i]? = some n) :
    held (nodes.set i n') = Function.update (held nodes) i n'.worker.handler.server := by
  have hi : i < nodes.length := (List.getElem?_eq_some_iff.1 hn).1
  funext j
  by_cases hj : j = i
  · rw [hj, Function.update_self, held_eq (List.getElem?_set_self hi)]
  · rw [Function.update_of_ne hj, held, held, List.getElem?_set_ne (Ne.symm hj)]

/-- They hold the same once one was replaced that holds the same. -/
theorem held_set_same (hn : nodes[i]? = some n)
    (hsame : n'.worker.handler.server = n.worker.handler.server) :
    held (nodes.set i n') = held nodes := by
  rw [held_set hn, hsame, ← held_eq hn, Function.update_eq_self]

/-- They hold the same without the last, if it holds nothing. -/
theorem held_dropLast (hlast : nodes.getLast? = some n) (hnone : n.worker.handler.server = none) :
    held nodes.dropLast = held nodes := by
  rw [List.getLast?_eq_getElem?] at hlast
  have hlength : nodes.length - 1 < nodes.length := (List.getElem?_eq_some_iff.1 hlast).1
  funext j
  rcases lt_trichotomy j (nodes.length - 1) with hj | rfl | hj
  · rw [held, List.getElem?_dropLast, if_pos hj, held]
  · rw [held_eq hlast, hnone, held, List.getElem?_dropLast, if_neg (lt_irrefl _), Option.bind_none]
  · have hbeyond : nodes[j]? = none := List.getElem?_eq_none (by omega)
    rw [held, List.getElem?_dropLast, if_neg (not_lt.2 hj.le), held, hbeyond]

/-- New rows hold nothing. -/
theorem held_spawned (count : ℕ) (type : ProcType) :
    held (Console.spawned count type) = fun _ => none := by
  funext j
  rw [held]
  cases hn : (Console.spawned count type)[j]? with
  | none => rfl
  | some n =>
      obtain ⟨_, rfl⟩ := getElem?_spawned hn
      rfl

theorem held_nil : held [] = fun _ => none := by
  funext j
  rfl

end

/-! ### What a step does to the servers -/

/-- What is true of the rows and of the servers, where so many nodes were spawned. -/
structure Planned (count : ℕ) (c : Console) : Prop where
  rows : ∀ (i : ℕ) (n : Node), c.nodes[i]? = some n →
    i < count ∧ n.port = (2113 + i) % 2 ^ 16 ∧ n.seeds = others count n.port
  all : c.phase = .running → c.nodes.length = count
  gone : c.phase = .finished → c.nodes = []
  cluster : ∀ s ∈ c.procs.managed, s.port ∈ Console.allNodes count ∧
    s.seeds = others count s.port ∧ (s.seeds.length + 1) % 2 ≠ 0
  port : ∀ (i : ℕ) (n : Node), c.nodes[i]? = some n → ∀ k, n.worker.handler.server = some k →
    ∀ s, c.procs.managed[k]? = some s → s.port = n.port
  owned : Owned (held c.nodes) (untold c.procs.managed)

namespace Planned

variable {lib : Lib} {c c' : Console} {a : ConsoleAction} {i count : ℕ} {n n' : Node}

/-- The rows and the servers are left alone. -/
theorem keep (hc : Planned count c) (hnodes : c'.nodes = c.nodes) (hprocs : c'.procs = c.procs)
    (hrunning : c'.phase = .running → c.phase = .running)
    (hfinished : c'.phase = .finished → c.nodes = []) : Planned count c' := by
  constructor
  case rows => exact hnodes ▸ hc.rows
  case all => exact fun h => hnodes ▸ hc.all (hrunning h)
  case gone => exact fun h => hnodes ▸ hfinished h
  case cluster => exact hprocs ▸ hc.cluster
  case port =>
    rw [hnodes, hprocs]
    exact hc.port
  case owned =>
    rw [hnodes, hprocs]
    exact hc.owned

/-- A row is replaced by one that looks the same from here. -/
theorem set (hc : Planned count c) (hn : c.nodes[i]? = some n)
    (hnodes : c'.nodes = c.nodes.set i n') (hprocs : c'.procs = c.procs)
    (hphase : c'.phase = c.phase ∨ c'.phase = .closing true)
    (hport : n'.port = n.port) (hseeds : n'.seeds = n.seeds)
    (hserver : n'.worker.handler.server = n.worker.handler.server) : Planned count c' := by
  obtain ⟨hi, hplace, hothers⟩ := hc.rows i n hn
  constructor
  case rows =>
    rw [hnodes]
    exact rows_set hc.rows ⟨hi, hport.trans hplace, by rw [hseeds, hport, hothers]⟩
  case all =>
    intro hrunning
    rw [hnodes, List.length_set]
    rcases hphase with hsame | hclosing
    · exact hc.all (hsame ▸ hrunning)
    · cases hrunning.symm.trans hclosing
  case gone =>
    intro hfinished
    rcases hphase with hsame | hclosing
    · rw [hnodes, hc.gone (hsame ▸ hfinished), List.set_nil]
    · cases hfinished.symm.trans hclosing
  case cluster => exact hprocs ▸ hc.cluster
  case port =>
    rw [hnodes, hprocs]
    refine rows_set hc.port fun k hk s hs => ?_
    rw [hport]
    exact hc.port i n hn k (hserver ▸ hk) s hs
  case owned =>
    rw [hnodes, hprocs, held_set_same hn hserver]
    exact hc.owned

/-- A worker takes a command. -/
theorem work (hc : Planned count c) (hsound : n.Sound i) (hn : c.nodes[i]? = some n)
    {cmd : NodeCmd} {rest : List NodeCmd} (hinbox : n.worker.inbox = cmd :: rest)
    {procs : Procs} (hran : n.worker.handler.Ran c.procs cmd n'.worker.handler procs)
    (hport : n'.port = n.port) (hseeds : n'.seeds = n.seeds) :
    Planned count { c with procs, nodes := c.nodes.set i n' } := by
  obtain ⟨hi, hplace, hothers⟩ := hc.rows i n hn
  have howned := owned_ran hc.owned (held_eq hn) hran
  rw [← held_set hn] at howned
  constructor
  case rows => exact rows_set hc.rows ⟨hi, hport.trans hplace, by rw [hseeds, hport, hothers]⟩
  case all => exact fun hrunning => List.length_set.trans (hc.all hrunning)
  case gone => exact fun hfinished => by rw [hc.gone hfinished, List.set_nil]
  case cluster =>
    intro s hs
    obtain ⟨k, hk⟩ := List.mem_iff_getElem?.1 hs
    rcases managed_ran hran hk with ⟨s₀, hs₀, hp, hq, _⟩ | ⟨_, rfl, hodd⟩
    · rw [hp, hq]
      exact hc.cluster s₀ (List.mem_of_getElem? hs₀)
    · obtain ⟨hp, hq⟩ := hsound.fits _ (hinbox ▸ List.mem_cons_self) NodeCmd.noConfusion
      refine ⟨mem_allNodes.2 ⟨i, hi, ?_⟩, ?_, hodd⟩
      · rw [hp, hplace]
      · rw [hq, hp, hothers]
  case port =>
    refine rows_set ?_ ?_
    · intro j m hm k hk s hs
      obtain ⟨s₁, hs₁, _⟩ := (hc.owned.mem_iff k).2 ⟨j, (held_eq hm).trans hk⟩
      rcases managed_ran hran hs with ⟨s₀, hs₀, hp, _⟩ | ⟨rfl, _⟩
      · exact hp.trans (hc.port j m hm k hk s₀ hs₀)
      · exact absurd (List.getElem?_eq_some_iff.1 hs₁).1 (lt_irrefl _)
    · intro k hk s hs
      rw [hport]
      rcases managed_ran hran hs with ⟨s₀, hs₀, hp, _, hkept⟩ | ⟨_, rfl, _⟩
      · exact hp.trans (hc.port i n hn k (hkept hk) s₀ hs₀)
      · obtain ⟨hp, _⟩ := hsound.fits _ (hinbox ▸ List.mem_cons_self) NodeCmd.noConfusion
        exact hp
  case owned => exact howned

/-- No row is there, and no server was ever started. -/
theorem managed_nil (hc : Planned count c) (hrunning : c.phase = .running) (hempty : c.nodes = []) :
    c.procs.managed = [] := by
  refine List.eq_nil_iff_forall_not_mem.2 fun s hs => ?_
  have hcount : count = 0 := by rw [← hc.all hrunning, hempty, List.length_nil]
  obtain ⟨i, hi, _⟩ := mem_allNodes.1 (hc.cluster s hs).1
  omega

/-- A cluster is spawned, where there was none. -/
theorem spawn (hc : Planned count c) (hrunning : c.phase = .running) (hempty : c.nodes = [])
    {count' : ℕ} {type : ProcType} (hnodes : c'.nodes = Console.spawned count' type)
    (hprocs : c'.procs = c.procs) (hphase : c'.phase = c.phase) : Planned count' c' := by
  have hnone := hc.managed_nil hrunning hempty
  constructor
  case rows =>
    intro i n hn
    obtain ⟨hi, rfl⟩ := getElem?_spawned (hnodes ▸ hn)
    exact ⟨hi, rfl, rfl⟩
  case all =>
    intro _
    rw [hnodes, Console.spawned, List.length_mapIdx, Console.allNodes, List.length_map,
      List.length_range]
  case gone => exact fun hfinished => by cases hfinished.symm.trans (hphase.trans hrunning)
  case cluster =>
    rw [hprocs, hnone]
    exact fun s hs => absurd hs List.not_mem_nil
  case port =>
    intro i n hn k hk
    obtain ⟨_, rfl⟩ := getElem?_spawned (hnodes ▸ hn)
    cases hk
  case owned =>
    have howned := hc.owned
    rw [hempty, held_nil] at howned
    rwa [hnodes, hprocs, held_spawned]

/-- The last worker is done, and its row goes. -/
theorem reap (hc : Planned count c) (hsound : c.Sound) (hlast : c.nodes.getLast? = some n)
    (hdone : n.worker.done = true) :
    Planned count { c with nodes := c.nodes.dropLast, phase := .closing false } := by
  have hn : c.nodes[c.nodes.length - 1]? = some n := List.getLast?_eq_getElem? ▸ hlast
  constructor
  case rows => exact rows_dropLast hc.rows
  case all => exact fun hrunning => ConsolePhase.noConfusion hrunning
  case gone => exact fun hfinished => ConsolePhase.noConfusion hfinished
  case cluster => exact hc.cluster
  case port => exact rows_dropLast hc.port
  case owned =>
    show Owned (held c.nodes.dropLast) (untold c.procs.managed)
    rw [held_dropLast hlast ((hsound.rows _ n hn).ended hdone)]
    exact hc.owned

/-- **One step**: only a spawn changes how many nodes there are, and there was none before. -/
theorem next (hc : Planned count c) (hsound : c.Sound) (hnext : c.next lib a c') :
    ∃ count', Planned count' c' ∧
      (count' = count ∨ c'.phase = .running ∧ c'.procs.managed = []) := by
  cases Console.next_moved hnext with
  | pressed | ponged | drawn => exact ⟨count, hc.keep rfl rfl id hc.gone, Or.inl rfl⟩
  | reported _ _ found => exact ⟨count, hc.set found rfl rfl (Or.inl rfl) rfl rfl rfl, Or.inl rfl⟩
  | handled running _ _ touched frame =>
      cases touched with
      | kept nodes phase =>
          exact ⟨count, hc.keep nodes frame.procs (fun h => phase ▸ h)
            (fun h => hc.gone (phase ▸ h)), Or.inl rfl⟩
      | told node fits nodes phase =>
          exact ⟨count, hc.set node nodes frame.procs (Or.inl phase) rfl rfl rfl, Or.inl rfl⟩
      | @spawned count' type empty nodes phase =>
          exact ⟨count', hc.spawn running empty nodes frame.procs phase,
            Or.inr ⟨phase.trans running, frame.procs ▸ hc.managed_nil running empty⟩⟩
      | left nodes phase =>
          refine ⟨count, hc.keep nodes frame.procs (fun h => ?_) fun h => ?_, Or.inl rfl⟩
          · cases phase.symm.trans h
          · cases phase.symm.trans h
  | @worked i remote n cmd rest node live sent inbox =>
      refine ⟨count, hc.work (hsound.rows i n node) node inbox ?_ rfl rfl, Or.inl rfl⟩
      exact CommandHandler.run_ran remote n.worker.handler c.procs cmd
  | polled node => exact ⟨count, hc.set node rfl rfl (Or.inl rfl) rfl rfl rfl, Or.inl rfl⟩
  | sent node => exact ⟨count, hc.set node rfl rfl (Or.inl rfl) rfl rfl rfl, Or.inl rfl⟩
  | asked closing last =>
      have hlast := List.getLast?_eq_getElem? ▸ last
      exact ⟨count, hc.set hlast rfl rfl (Or.inr rfl) rfl rfl rfl, Or.inl rfl⟩
  | closed closing empty =>
      exact ⟨count, hc.keep rfl rfl ConsolePhase.noConfusion fun _ => empty, Or.inl rfl⟩
  | reaped closing last done sent => exact ⟨count, hc.reap hsound last done, Or.inl rfl⟩

/-- Who holds a server, and that the port of the row is that of the server. -/
theorem exists_holder (hc : Planned count c) {k : ℕ} {s : Managed}
    (hs : Untold c.procs.managed k s) :
    ∃! i, held c.nodes i = some k ∧ ∃ n, c.nodes[i]? = some n ∧ n.port = s.port := by
  obtain ⟨i, hi, huniq⟩ := hc.owned.existsUnique ⟨s, hs⟩
  obtain ⟨n, hn, hserver⟩ := Option.bind_eq_some_iff.1 hi
  exact ⟨i, ⟨hi, n, hn, (hc.port i n hn k hserver s hs.1).symm⟩, fun j hj => huniq j hj.1⟩

/-- What a plan says about the servers. -/
theorem managing (hc : Planned count c) : Managing count c := by
  constructor
  case cluster =>
    refine ⟨fun s hs => (hc.cluster s hs).1, fun s hs => (hc.cluster s hs).2.1, ?_⟩
    intro hcount hne
    obtain ⟨s, hs⟩ := List.exists_mem_of_ne_nil _ hne
    obtain ⟨hport, hseeds, hodd⟩ := hc.cluster s hs
    rw [hseeds, length_others hcount hport] at hodd
    omega
  case row => exact fun k s hs => hc.exists_holder hs
  case held => exact fun i k hi => (hc.owned.mem_iff k).2 ⟨i, hi⟩
  case apart =>
    intro hcount k k' s s' hs hs' hports
    obtain ⟨i, ⟨hi, n, hn, hport⟩, _⟩ := hc.exists_holder hs
    obtain ⟨j, ⟨hj, m, hm, hport'⟩, _⟩ := hc.exists_holder hs'
    obtain ⟨hlt, hplace, _⟩ := hc.rows i n hn
    obtain ⟨hlt', hplace', _⟩ := hc.rows j m hm
    obtain rfl := port_inj hcount hlt hlt' (by rw [← hplace, ← hplace', hport, hport', hports])
    exact Option.some.inj (hi.symm.trans hj)
  case finished =>
    intro hfinished s hs
    obtain ⟨k, hk⟩ := List.mem_iff_getElem?.1 hs
    refine Bool.eq_true_of_not_eq_false fun htold => ?_
    obtain ⟨i, ⟨hi, _⟩, _⟩ := hc.exists_holder ⟨hk, htold⟩
    rw [hc.gone hfinished, held_nil] at hi
    cases hi

end Planned

section

variable {lib : Lib} {content : Bytes} {h : List (Step Console ConsoleAction)} {c : Console}

/-- A console that just started runs nothing. -/
theorem planned_new {calls : List Io} (hnew : Console.new content calls = some c) :
    Planned 0 c := by
  obtain ⟨state, _, heq⟩ := Option.bind_eq_some_iff.1 hnew
  obtain rfl := Option.some.inj heq
  have hnone : untold [] = ∅ := by
    ext k
    exact iff_of_false (fun ⟨_, hs, _⟩ => by cases hs) (Set.notMem_empty k)
  constructor
  case rows => exact fun i n hn => by cases hn
  case all => exact fun _ => rfl
  case gone => exact fun _ => rfl
  case cluster => exact fun s hs => absurd hs List.not_mem_nil
  case port => exact fun i n hn => by cases hn
  case owned =>
    show Owned (held []) (untold [])
    rw [held_nil, hnone]
    exact .empty

theorem ConsoleRun.planned (hrun : ConsoleRun lib content h c) : ∃ count, Planned count c := by
  obtain ⟨calls, init, hnew, hrun⟩ := hrun
  induction hrun with
  | nil => exact ⟨0, planned_new hnew⟩
  | cons hrun hnext ih =>
      obtain ⟨count, hc⟩ := ih
      obtain ⟨count', hc', _⟩ := hc.next (ConsoleRun.sound ⟨calls, init, hnew, hrun⟩) hnext
      exact ⟨count', hc'⟩

end

/-- Three nodes are spawned, one of them is restarted, and the console is left. -/
def restartedAndLeft : List ConsoleAction :=
  let remote := Remote.sample []
  let env : ConsoleEnv := { edited := "", elapsed := 0, names := fun _ => "name" }
  typed "spawn --count 3" ++ [.work 0 remote, .work 1 remote, .work 2 remote] ++
    typed "restart --node 0" ++ [.send 0, .handle env, .work 0 remote] ++ typed "exit"

end Repl
end RaftPlayground
