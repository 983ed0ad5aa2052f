/-
# Logs without gaps and repetitions

Every search in a log takes for granted that the indices are `1, 2, …, n`, and no
single function sees to it: a leader numbers what it appends, a batch it sends
continues a prefix of its log, and a follower puts the batch behind the prefix it
knows.  That leaves a well-formed log if what the follower has behind the prefix
goes (`LandsClean`).  `on_append_entries` drops it only when the tail has another
term than the request, so a batch that comes twice is stored twice.
-/

import RaftPlayground.Safety.Conditions
import RaftPlayground.Server.Log
import RaftPlayground.Server.Upkeep

namespace RaftPlayground
namespace Safety

open Protocol Server

/-- The conditions on a turn under which logs stay numbered. -/
structure KeepsNumbers (n : Node) (i : Input) : Prop where
  landsClean : LandsClean n i
  indexFits : IndexFits n i

instance (n : Node) (i : Input) : Decidable (KeepsNumbers n i) :=
  decidable_of_iff (LandsClean n i ∧ IndexFits n i) ⟨fun h => ⟨h.1, h.2⟩, fun h => ⟨h.1, h.2⟩⟩

/-- The batch of a replication request continues at its previous index. -/
def Continues : Packet → Prop
  | .entriesReq _ _ req => Consecutive req.prevLogIndex req.entries
  | .voteReq .. | .voteResp .. | .entriesResp .. => True

/-- The batch of a replication request, as an input. -/
def ContinuesAt : Input → Prop
  | .msg (.appendEntries _ _ prev _ _ es) => Consecutive prev es
  | _ => True

theorem continuesAt_of_origin {members : List NodeId} {id : NodeId} {i : Input}
    (h : Origin members Continues id i) : ContinuesAt i := by
  cases h with
  | tick => trivial
  | client req => cases req <;> trivial
  | packet p _ _ hp => cases p <;> exact hp

/-- What a leader with a numbered log sends. -/
theorem continues_of_send {id : NodeId} {es : Entries} (hnum : es.Numbered) {s : Seeds}
    {term commit : ℕ} {x : NodeId × EntriesReq} (hx : x ∈ s.sendAppendEntries es term commit) :
    Continues (.entriesReq id x.1 x.2) := by
  obtain ⟨seed, _, rfl⟩ := Seeds.mem_sendAppendEntries hx
  obtain ⟨k, hk, heq⟩ := hnum.appendEntriesTo s term commit seed
  rw [heq]
  exact hnum.consecutive.batch hk 500

section

variable {id : NodeId} {env : Env} {n n' : Node} {i : Input} {eff : Effects}

/-- **Every turn keeps the log numbered.** -/
theorem numbered_turned (hnum : n.persistent.entries.Numbered) (hin : ContinuesAt i)
    (hcond : KeepsNumbers n i) (ht : n.Turned env i n' eff) : n'.persistent.entries.Numbered := by
  cases ht with
  | entriesStored le known end_ store =>
      refine (hnum.stored known (hcond.landsClean le known ?_) hin store).2
      rintro rfl
      simp at end_
  | appendStored lead store | appendPending lead store =>
      obtain ⟨_, _, _, _, hnum'⟩ := hnum.appendEventsLoop (hcond.indexFits lead)
      rw [store] at hnum'
      exact hnum'
  | _ => exact hnum

theorem continues_turned (hnum : n'.persistent.entries.Numbered) (ht : n.Turned env i n' eff) :
    ∀ p ∈ eff.packets id, Continues p := by
  intro p hp
  rcases Effects.mem_packets.1 hp with ⟨x, hx, rfl⟩ | ⟨x, hx, rfl⟩
  · trivial
  · obtain ⟨_, s, hsend⟩ := ht.sends hx
    exact continues_of_send hnum hsend

end

/-- Numbered logs, kept up over the runs of a cluster. -/
def numbering (cfg : Config) : Upkeep cfg (fun _ => KeepsNumbers) NoGhost where
  node _ _ _ n := n.persistent.entries.Numbered
  packet _ _ := Continues
  fact _ _ t := t.after.persistent.entries.Numbered
  packet_mono _ hp := hp
  fact_mono _ hf := hf
  failed _ _ _ _ _ := trivial
  start _ := ⟨.none, fun _ => Entries.numbered_default⟩
  turn _ _ hnum horigin hcond ht := by
    have hnum' := numbered_turned hnum (continuesAt_of_origin horigin) hcond ht
    refine ⟨.none, le_rfl, hnum', fun _ _ _ h => h, continues_turned hnum' ht, ?_, hnum'⟩
    intro p _ _ _ _ q hq
    cases q with
    | entriesReq => exact (Packet.not_isRequest_of_mem_answer hq trivial).elim
    | voteReq | voteResp | entriesResp => trivial

/-- **Well-formed logs.**  In every state of every run whose calls meet `KeepsNumbers`,
the indices of every log are `1, 2, …, n`. -/
theorem log_well_formed {cfg : Config} {started : NodeId → ℕ} {h : List (Step Cluster Action)}
    {c c₁ : Cluster} (hrun : ClusterRun cfg started h c)
    (hcond : ∀ st ∈ h, Cluster.Meets (fun _ => KeepsNumbers) st)
    (hvisit : ClusterVisited cfg started h c₁) (id : NodeId) :
    (c₁.nodes id).persistent.entries.inner.map Entry.index =
      List.range' 1 (c₁.nodes id).persistent.entries.inner.length := by
  obtain ⟨_, _, hfact⟩ := (numbering cfg).run hrun hcond
  have hnum : (c₁.nodes id).persistent.entries.Numbered := by
    rcases hrun.visited_cases hvisit id with hstart | ⟨t, ht, hafter⟩
    · rw [hstart]
      exact Entries.numbered_default
    · exact hafter ▸ hfact id t ht
  exact consecutive_iff.1 hnum.consecutive

/-- A follower that has both entries of the leader. -/
theorem log_well_formed_replication : ∃ h c, ClusterRun .trio (fun _ => 0) h c ∧
    (c.nodes (localhost 2114)).persistent.entries.inner.map Entry.index = List.range' 1 2 := by
  obtain ⟨h, c, hrun, hcond, hlen⟩ := ClusterRun.exists_of_replay .trio replication
    (fun h c => (∀ st ∈ h, Cluster.Meets (fun _ => KeepsNumbers) st) ∧
      (c.nodes (localhost 2114)).persistent.entries.inner.length = 2) (by decide +kernel)
  exact ⟨h, c, hrun, hlen ▸ log_well_formed hrun hcond (Run.visited hrun) (localhost 2114)⟩

/-- A batch that is sent again before its answer is stored again. -/
theorem batch_stored_twice : ∃ h c, ClusterRun .trio (fun _ => 0) h c ∧
    (c.nodes (localhost 2114)).persistent.entries.inner.map Entry.index = [1, 2, 3, 3] ∧
      (c.nodes (localhost 2114)).persistent.entries.inner.map Entry.index ≠
        List.range' 1 (c.nodes (localhost 2114)).persistent.entries.inner.length :=
  ClusterRun.exists_of_replay .trio resent
    (fun _ c =>
      (c.nodes (localhost 2114)).persistent.entries.inner.map Entry.index = [1, 2, 3, 3] ∧
        (c.nodes (localhost 2114)).persistent.entries.inner.map Entry.index ≠
          List.range' 1 (c.nodes (localhost 2114)).persistent.entries.inner.length)
    (by decide +kernel)

end Safety
end RaftPlayground
