/-
# The peers of a node

`raft-server/src/seed.rs`.

`Seeds` is a `HashMap<NodeId, Seed>`.  It is modelled by the list of its values,
with the proof that no two of them have the same id: `Seeds::new` stores every
seed under its own id and no later operation changes an id.  The map is iterated
only to send one request to every peer, to reset every peer and to take a
minimum, so the order of the list never shows.  A `Seed` keeps its id and its
two replication positions; the mailbox, the RPC client and the runtime handle
carry no state of the protocol.
-/

import RaftPlayground.Server.Entry
import Mathlib.Data.List.Nodup

namespace RaftPlayground
namespace Server

/-- A vote request on the wire (`VoteReq`). -/
structure VoteReq where
  candidateId : NodeId
  term : ℕ
  lastLogIndex : ℕ
  lastLogTerm : ℕ
deriving DecidableEq, Repr

/-- A replication request on the wire (`EntriesReq`). -/
structure EntriesReq where
  leaderId : NodeId
  term : ℕ
  prevLogIndex : ℕ
  prevLogTerm : ℕ
  leaderCommit : ℕ
  entries : List Entry
deriving DecidableEq, Repr

/-- A peer and how far its replication has come. -/
structure Seed where
  id : NodeId
  nextIndex : ℕ
  matchIndex : ℕ
deriving DecidableEq, Repr

/-- `Seed::new`. -/
def Seed.new (id : NodeId) : Seed := { id, nextIndex := 0, matchIndex := 0 }

/-- The peers of the node `nodeId`, no two with one id. -/
structure Seeds where
  nodeId : NodeId
  inner : List Seed
  nodup : (inner.map Seed.id).Nodup
deriving DecidableEq

namespace Seeds

/-- `HashMap::insert` under the seed's own id: an earlier value is replaced. -/
def insertSeed (inner : List Seed) (seed : Seed) : List Seed :=
  inner.filter (fun s => s.id ≠ seed.id) ++ [seed]

theorem nodup_insertSeed {inner : List Seed} (h : (inner.map Seed.id).Nodup) (seed : Seed) :
    ((insertSeed inner seed).map Seed.id).Nodup := by
  rw [insertSeed, List.map_append, List.nodup_append]
  refine ⟨h.sublist ((List.filter_sublist).map _), List.nodup_singleton _, ?_⟩
  intro a ha b hb
  simp only [List.mem_map, List.mem_filter, decide_eq_true_eq] at ha
  obtain ⟨s, ⟨_, hs⟩, rfl⟩ := ha
  rw [List.map_singleton, List.mem_singleton] at hb
  exact hb ▸ hs

/-- The loop of `Seeds::new`. -/
def newLoop : List Seed → List Seed → List Seed
  | inner, [] => inner
  | inner, seed :: seeds => newLoop (insertSeed inner seed) seeds

theorem nodup_newLoop {inner : List Seed} (h : (inner.map Seed.id).Nodup) (seeds : List Seed) :
    ((newLoop inner seeds).map Seed.id).Nodup := by
  induction seeds generalizing inner with
  | nil => exact h
  | cons seed seeds ih => exact ih (nodup_insertSeed h seed)

/-- `Seeds::new`. -/
def new (nodeId : NodeId) (seeds : List Seed) : Seeds :=
  { nodeId, inner := newLoop [] seeds, nodup := @nodup_newLoop [] List.nodup_nil seeds }

/-- The ids of the peers, the keys of the map. -/
def ids (s : Seeds) : List NodeId := s.inner.map Seed.id

/-- Every seed replaced by a function that keeps its id (`values_mut`, `get_mut`). -/
def modify (s : Seeds) (f : Seed → Seed) (hf : ∀ x, (f x).id = x.id) : Seeds :=
  { s with
    inner := s.inner.map f
    nodup := by
      have h : Seed.id ∘ f = Seed.id := funext hf
      rw [List.map_map, h]
      exact s.nodup }

/-- `Seeds::node_mut` followed by the assignments `f` to the seed found.  `none`
is the failed `unwrap` on an id that is no key. -/
def nodeMut (s : Seeds) (id : NodeId) (f : Seed → Seed) (hf : ∀ x, (f x).id = x.id) :
    Option Seeds :=
  if id ∈ s.ids then
    some (s.modify (fun x => if x.id = id then f x else x) fun x => by split_ifs <;> simp [hf])
  else none

/-- `Seeds::reset`. -/
def reset (s : Seeds) (lastIndex : ℕ) : Seeds :=
  s.modify (fun x => { x with nextIndex := addU64 lastIndex 1, matchIndex := 0 }) fun _ => rfl

/-- `Seeds::len`. -/
def len (s : Seeds) : ℕ := s.inner.length

/-- `Seeds::is_empty`. -/
def isEmpty (s : Seeds) : Bool := s.inner.isEmpty

/-- The request `Seeds::send_append_entries` builds for one peer. -/
def appendEntriesTo (s : Seeds) (entries : Entries) (term commitIndex : ℕ) (seed : Seed) :
    NodeId × EntriesReq :=
  let (prevLogIndex, prevLogTerm) := entries.getPreviousEntry seed.nextIndex
  (seed.id,
    { leaderId := s.nodeId
      term
      prevLogIndex
      prevLogTerm
      leaderCommit := commitIndex
      entries := entries.readEntriesFrom prevLogIndex 500 })

/-- `Seeds::send_append_entries`: the request sent to every peer. -/
def sendAppendEntries (s : Seeds) (entries : Entries) (term commitIndex : ℕ) :
    List (NodeId × EntriesReq) :=
  s.inner.map (s.appendEntriesTo entries term commitIndex)

/-- `Seeds::request_vote`: the request sent to every peer. -/
def requestVote (s : Seeds) (entries : Entries) (term : ℕ) : List (NodeId × VoteReq) :=
  s.inner.map fun seed =>
    (seed.id,
      { candidateId := s.nodeId
        term
        lastLogIndex := entries.lastIndex
        lastLogTerm := entries.lastTerm })

/-- `Seeds::compute_lowest_replicated_index`. -/
def computeLowestReplicatedIndex (s : Seeds) : ℕ :=
  s.inner.foldl (fun lowest seed => min lowest seed.matchIndex) (2 ^ 64 - 1)

/-! ### The key set -/

@[simp] theorem ids_modify (s : Seeds) (f : Seed → Seed) (hf : ∀ x, (f x).id = x.id) :
    (s.modify f hf).ids = s.ids := by
  have h : Seed.id ∘ f = Seed.id := funext hf
  rw [ids, modify, List.map_map, h, ids]

@[simp] theorem ids_reset (s : Seeds) (lastIndex : ℕ) : (s.reset lastIndex).ids = s.ids :=
  s.ids_modify _ _

theorem ids_nodeMut {s s' : Seeds} {id : NodeId} {f : Seed → Seed} {hf : ∀ x, (f x).id = x.id}
    (h : s.nodeMut id f hf = some s') : s'.ids = s.ids := by
  simp only [nodeMut, Option.ite_none_right_eq_some, Option.some.injEq] at h
  rw [← h.2, ids_modify]

theorem nodeId_nodeMut {s s' : Seeds} {id : NodeId} {f : Seed → Seed}
    {hf : ∀ x, (f x).id = x.id} (h : s.nodeMut id f hf = some s') : s'.nodeId = s.nodeId := by
  simp only [nodeMut, Option.ite_none_right_eq_some, Option.some.injEq] at h
  rw [← h.2, modify]

theorem mem_nodeMut {s s' : Seeds} {id : NodeId} {f : Seed → Seed} {hf : ∀ x, (f x).id = x.id}
    (h : s.nodeMut id f hf = some s') {seed : Seed} (hseed : seed ∈ s'.inner) :
    ∃ x ∈ s.inner, seed = if x.id = id then f x else x := by
  simp only [nodeMut, Option.ite_none_right_eq_some, Option.some.injEq] at h
  rw [← h.2, modify, List.mem_map] at hseed
  obtain ⟨x, hx, rfl⟩ := hseed
  exact ⟨x, hx, rfl⟩

theorem nodeMut_of_mem {s : Seeds} {seed : Seed} (hseed : seed ∈ s.inner) (f : Seed → Seed)
    (hf : ∀ x, (f x).id = x.id) :
    ∃ s', s.nodeMut seed.id f hf = some s' ∧ f seed ∈ s'.inner := by
  refine ⟨_, if_pos (List.mem_map_of_mem hseed), ?_⟩
  exact List.mem_map.2 ⟨seed, hseed, if_pos rfl⟩

theorem length_ids (s : Seeds) : s.ids.length = s.len := List.length_map _

theorem isEmpty_eq_false {s : Seeds} : s.isEmpty = false ↔ s.ids ≠ [] := by
  rw [isEmpty, ids, ne_eq, List.map_eq_nil_iff, ← List.isEmpty_iff, Bool.not_eq_true]

theorem mem_newLoop {inner seeds : List Seed} {id : NodeId} :
    id ∈ (newLoop inner seeds).map Seed.id ↔ id ∈ inner.map Seed.id ∨ id ∈ seeds.map Seed.id := by
  induction seeds generalizing inner with
  | nil => simp [newLoop]
  | cons seed seeds ih =>
      have hins : id ∈ (insertSeed inner seed).map Seed.id ↔
          id ∈ inner.map Seed.id ∨ id = seed.id := by
        simp only [insertSeed, List.map_append, List.mem_append, List.mem_map, List.mem_filter,
          decide_eq_true_eq, List.map_singleton, List.mem_singleton]
        constructor
        · rintro (⟨s, ⟨hs, _⟩, rfl⟩ | rfl)
          · exact Or.inl ⟨s, hs, rfl⟩
          · exact Or.inr rfl
        · rintro (⟨s, hs, rfl⟩ | rfl)
          · by_cases hid : s.id = seed.id
            · exact Or.inr hid
            · exact Or.inl ⟨s, ⟨hs, hid⟩, rfl⟩
          · exact Or.inr rfl
      rw [newLoop, ih, hins, List.map_cons, List.mem_cons, or_assoc]

/-- The keys of a fresh map are the ids of the seeds given. -/
theorem mem_ids_new {nodeId id : NodeId} {seeds : List Seed} :
    id ∈ (new nodeId seeds).ids ↔ id ∈ seeds.map Seed.id :=
  mem_newLoop.trans (by simp)

theorem mem_ids_of_mem {s : Seeds} {seed : Seed} (h : seed ∈ s.inner) : seed.id ∈ s.ids :=
  List.mem_map_of_mem h

/-- Where the requests of `send_append_entries` come from. -/
theorem mem_sendAppendEntries {s : Seeds} {es : Entries} {term commit : ℕ}
    {x : NodeId × EntriesReq} (h : x ∈ s.sendAppendEntries es term commit) :
    ∃ seed ∈ s.inner, x = s.appendEntriesTo es term commit seed := by
  obtain ⟨seed, hseed, rfl⟩ := List.mem_map.1 h
  exact ⟨seed, hseed, rfl⟩

/-- Every peer gets one request of `send_append_entries`. -/
theorem find_sendAppendEntries {s : Seeds} {seed : Seed} (hseed : seed ∈ s.inner)
    (es : Entries) (term commit : ℕ) :
    (s.sendAppendEntries es term commit).find? (fun x => x.1 = seed.id) =
      some (s.appendEntriesTo es term commit seed) := by
  obtain ⟨before, after, hsplit⟩ := List.append_of_mem hseed
  have hnew : ∀ x ∈ before, x.id ≠ seed.id := by
    have hnd := s.nodup
    rw [hsplit, List.map_append, List.map_cons, List.nodup_append] at hnd
    exact fun x hx => hnd.2.2 _ (List.mem_map_of_mem hx) _ List.mem_cons_self
  have hskip : (before.map (s.appendEntriesTo es term commit)).find?
      (fun x => x.1 = seed.id) = none := by
    rw [List.find?_eq_none]
    intro x hx
    obtain ⟨y, hy, rfl⟩ := List.mem_map.1 hx
    exact fun hid => hnew y hy (of_decide_eq_true hid)
  rw [sendAppendEntries, hsplit, List.map_append, List.find?_append, hskip, List.map_cons,
    Option.none_or]
  exact List.find?_cons_of_pos (decide_eq_true rfl)

/-- Where the requests of `request_vote` come from. -/
theorem mem_requestVote {s : Seeds} {es : Entries} {term : ℕ} {x : NodeId × VoteReq}
    (h : x ∈ s.requestVote es term) :
    x.1 ∈ s.ids ∧ x.2 = ⟨s.nodeId, term, es.lastIndex, es.lastTerm⟩ := by
  obtain ⟨seed, hseed, rfl⟩ := List.mem_map.1 h
  exact ⟨mem_ids_of_mem hseed, rfl⟩

theorem foldl_min_le (l : List Seed) (b : ℕ) :
    l.foldl (fun lowest seed => min lowest seed.matchIndex) b ≤ b ∧
      ∀ seed ∈ l, l.foldl (fun lowest seed => min lowest seed.matchIndex) b ≤ seed.matchIndex := by
  induction l generalizing b with
  | nil => simp
  | cons s l ih =>
      obtain ⟨hstart, hmem⟩ := ih (min b s.matchIndex)
      rw [List.foldl_cons]
      constructor
      · omega
      · intro seed hseed
        rcases List.mem_cons.1 hseed with rfl | hseed
        · omega
        · exact hmem seed hseed

/-- What is replicated on every peer is replicated on each. -/
theorem computeLowestReplicatedIndex_le {s : Seeds} {seed : Seed} (h : seed ∈ s.inner) :
    s.computeLowestReplicatedIndex ≤ seed.matchIndex :=
  (foldl_min_le s.inner _).2 seed h

theorem foldl_min_mem (l : List Seed) (b : ℕ) :
    l.foldl (fun lowest seed => min lowest seed.matchIndex) b = b ∨
      ∃ seed ∈ l,
        seed.matchIndex = l.foldl (fun lowest seed => min lowest seed.matchIndex) b := by
  induction l generalizing b with
  | nil => exact Or.inl rfl
  | cons s l ih =>
      rw [List.foldl_cons]
      rcases ih (min b s.matchIndex) with hstart | ⟨seed, hseed, heq⟩
      · rw [hstart]
        rcases Nat.le_total b s.matchIndex with hle | hle
        · exact Or.inl (Nat.min_eq_left hle)
        · exact Or.inr ⟨s, List.mem_cons_self, (Nat.min_eq_right hle).symm⟩
      · exact Or.inr ⟨seed, List.mem_cons_of_mem _ hseed, heq⟩

/-- With peers, the lowest replicated index is the one of a peer. -/
theorem exists_matchIndex_eq {s : Seeds} (hne : s.isEmpty = false)
    (hfits : ∀ seed ∈ s.inner, seed.matchIndex < 2 ^ 64) :
    ∃ seed ∈ s.inner, seed.matchIndex = s.computeLowestReplicatedIndex := by
  rcases foldl_min_mem s.inner (2 ^ 64 - 1) with hmax | hmem
  · obtain ⟨seed, hseed⟩ : ∃ seed, seed ∈ s.inner := by
      rw [isEmpty, List.isEmpty_eq_false_iff_exists_mem] at hne
      exact hne
    have hle := computeLowestReplicatedIndex_le hseed
    have hfit := hfits seed hseed
    refine ⟨seed, hseed, ?_⟩
    rw [computeLowestReplicatedIndex] at hle ⊢
    omega
  · exact hmem

theorem le_foldl_min {l : List Seed} {a b : ℕ} (hb : a ≤ b)
    (hl : ∀ seed ∈ l, a ≤ seed.matchIndex) :
    a ≤ l.foldl (fun lowest seed => min lowest seed.matchIndex) b := by
  induction l generalizing b with
  | nil => exact hb
  | cons s l ih =>
      rw [List.forall_mem_cons] at hl
      exact ih (Nat.le_min.2 ⟨hb, hl.1⟩) hl.2

/-- The lowest replicated index does not go back where no `match_index` does. -/
theorem computeLowestReplicatedIndex_mono {s s' : Seeds}
    (h : ∀ y ∈ s'.inner, ∃ x ∈ s.inner, x.matchIndex ≤ y.matchIndex) :
    s.computeLowestReplicatedIndex ≤ s'.computeLowestReplicatedIndex := by
  refine le_foldl_min (foldl_min_le s.inner _).1 fun y hy => ?_
  obtain ⟨x, hx, hle⟩ := h y hy
  exact Nat.le_trans (computeLowestReplicatedIndex_le hx) hle

/-- An id names one peer. -/
theorem eq_of_id_eq {s : Seeds} {x y : Seed} (hx : x ∈ s.inner) (hy : y ∈ s.inner)
    (h : x.id = y.id) : x = y :=
  List.inj_on_of_nodup_map s.nodup hx hy h

/-- A seed moved by no less than it had leaves each of them with no less. -/
theorem exists_le_of_nodeMut {s s' : Seeds} {id : NodeId} {f : Seed → Seed}
    {hf : ∀ x, (f x).id = x.id} (h : s.nodeMut id f hf = some s')
    (hle : ∀ x ∈ s.inner, x.id = id → x.matchIndex ≤ (f x).matchIndex) :
    ∀ y ∈ s'.inner, ∃ x ∈ s.inner, x.id = y.id ∧ x.matchIndex ≤ y.matchIndex := by
  intro y hy
  obtain ⟨x, hx, rfl⟩ := mem_nodeMut h hy
  refine ⟨x, hx, ?_⟩
  split_ifs with hid
  · exact ⟨(hf x).symm, hle x hx hid⟩
  · exact ⟨rfl, Nat.le_refl _⟩

/-- The lowest replicated index depends on `match_index` alone. -/
theorem computeLowestReplicatedIndex_nodeMut {s s' : Seeds} {id : NodeId} {f : Seed → Seed}
    {hf : ∀ x, (f x).id = x.id} (h : s.nodeMut id f hf = some s')
    (hmatch : ∀ x, (f x).matchIndex = x.matchIndex) :
    s'.computeLowestReplicatedIndex = s.computeLowestReplicatedIndex := by
  simp only [nodeMut, Option.ite_none_right_eq_some, Option.some.injEq] at h
  rw [← h.2, modify, computeLowestReplicatedIndex, computeLowestReplicatedIndex, List.foldl_map]
  congr 1
  funext lowest x
  split_ifs
  · rw [hmatch]
  · rfl

end Seeds

end Server
end RaftPlayground
