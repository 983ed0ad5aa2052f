/-
# The loop of a node does not panic

Three calls in the handlers fail on the wrong argument.  `node_mut` unwraps the seed
of the node that answers; the keys of the map never change, and answers come from the
nodes they were asked of.  `on_append_entries` takes the last entry of the batch and
asserts that there is one; a heartbeat returns before.  `on_read_stream` takes four
bytes and then as many as they say from every payload in the log, whichever node
stored it first; the length in front of an id counts its characters, cut to 32 bits, and
that is never beyond its bytes.
-/

import RaftPlayground.Safety.Origins
import RaftPlayground.Safety.RoundTrip

namespace RaftPlayground
namespace Safety

open Protocol Server Cluster

/-- The payload holds the four bytes of a length, and as many more as it says. -/
def Readable (payload : Bytes) : Prop :=
  ∃ len rest, getU32Le payload = some (len, rest) ∧ len ≤ rest.length

/-- What `on_append_stream` stores is readable, for any id and event. -/
theorem readable_putEvent (streamId : String) (event : Bytes) :
    Readable (putEvent streamId event) := by
  have hlen : streamIdLen streamId < 2 ^ 32 := Nat.mod_lt _ (Nat.two_pow_pos 32)
  refine ⟨streamIdLen streamId, asBytes streamId ++ event, ?_, ?_⟩
  · rw [putEvent, List.append_assoc, getU32Le_putU32Le hlen]
  · have hle := streamIdLen_le streamId
    rw [List.length_append]
    omega

theorem Creates.readable {t : Step Node Turn} {e : Entry} (h : Creates t e) :
    Readable e.payload := by
  obtain ⟨_, streamId, _, _, _, _, _, _, _, event, _, hpayload⟩ := h
  rw [hpayload]
  exact readable_putEvent streamId event

/-- The reader gets through a log of readable payloads. -/
theorem readStreamLoop_isSome {s : String} {l : List Entry}
    (hl : ∀ e ∈ l, Readable e.payload) (revision : ℕ) :
    (readStreamLoop s l revision).isSome = true := by
  induction l generalizing revision with
  | nil => rfl
  | cons e l ih =>
      rw [List.forall_mem_cons] at hl
      obtain ⟨len, rest, hget, hle⟩ := hl.1
      have hcopy : copyToBytes rest len = some (rest.take len, rest.drop len) := if_pos hle
      simp only [readStreamLoop, hget, hcopy, Option.bind_eq_bind, Option.bind_some]
      split_ifs
      · obtain ⟨batch, hbatch⟩ := Option.isSome_iff_exists.1 (ih hl.2 (revision + 1))
        rw [hbatch]
        rfl
      · exact ih hl.2 revision

section

variable {n : Node}

/-- The input asks the node for nothing it does not have. -/
def Answerable (n : Node) : Input → Prop
  | .msg (.appendEntriesResp id _ _) => id ∈ n.volatile.seeds.ids
  | .msg (.readStream _) => ∀ e ∈ n.persistent.entries.inner, Readable e.payload
  | _ => True

/-- **A handler returns** on every input the node can answer. -/
theorem handle_isSome (env : Env) {i : Input} (h : Answerable n i) :
    (n.handle env i).isSome = true := by
  cases i with
  | tick => rfl
  | msg m =>
      cases m with
      | requestVote | voteReceived | appendStream | status => rfl
      | appendEntries term id prev prevTerm commit es =>
          have hsome := Node.onAppendEntries_isSome env n term id prev prevTerm commit es
          obtain ⟨x, hx⟩ := Option.isSome_iff_exists.1 hsome
          simp [Node.handle, hx]
      | appendEntriesResp id batchEnd resp =>
          have hsome := Node.onAppendEntriesResp_isSome h batchEnd resp
          obtain ⟨x, hx⟩ := Option.isSome_iff_exists.1 hsome
          simp [Node.handle, hx]
      | readStream s =>
          have hsome : (n.persistent.onReadStream s).isSome = true := readStreamLoop_isSome h 0
          obtain ⟨x, hx⟩ := Option.isSome_iff_exists.1 hsome
          simp [Node.handle, hx]

end

/-- No call that can be made next on a node of the cluster panics. -/
structure PanicFree (c : Cluster) : Prop where
  tick : ∀ env id, ((c.nodes id).handle env .tick).isSome = true
  client : ∀ env id req resp,
    ((c.nodes id).handle env (.msg (ClientReq.msg resp req))).isSome = true
  deliver : ∀ env, ∀ p ∈ c.net, ((c.nodes p.dst).handle env (.msg p.msg)).isSome = true
  /-- `node_mut` finds the node that answers. -/
  peer : ∀ src dst batchEnd resp, .entriesResp src dst batchEnd resp ∈ c.net →
    src ∈ (c.nodes dst).volatile.seeds.ids
  /-- The reader gets its bytes from every payload. -/
  readable : ∀ id, ∀ e ∈ (c.nodes id).persistent.entries.inner, Readable e.payload

/-- What can be asked of a node of a cluster can be answered. -/
theorem panicFree_of_run {cfg : Config} {started : NodeId → ℕ} {h : List (Step Cluster Action)}
    {c : Cluster} (hrun : ClusterRun cfg started h c) : PanicFree c := by
  obtain ⟨_, hsource, _⟩ := (sourcing cfg).run hrun fun _ _ _ _ => trivial
  have hreadable : ∀ id, ∀ e ∈ (c.nodes id).persistent.entries.inner, Readable e.payload := by
    intro id e he
    obtain ⟨_, _, _, hcreates⟩ := hsource.nodes id e he
    exact hcreates.readable
  have hpeer : ∀ src dst batchEnd resp, .entriesResp src dst batchEnd resp ∈ c.net →
      src ∈ (c.nodes dst).volatile.seeds.ids := by
    intro src dst batchEnd resp hp
    have hrouted := hrun.routed _ hp
    exact ((hrun.placed dst).mem_ids src).2 ⟨hrouted.src_mem, hrouted.ne⟩
  constructor
  case tick => exact fun env id => rfl
  case client =>
    intro env id req resp
    cases req with
    | append | status => rfl
    | read streamId => exact handle_isSome env (hreadable id)
  case deliver =>
    intro env p hp
    refine handle_isSome env ?_
    cases p with
    | voteReq | voteResp | entriesReq => trivial
    | entriesResp src dst batchEnd resp => exact hpeer src dst batchEnd resp hp
  case peer => exact hpeer
  case readable => exact hreadable

/-- **The loop of a node does not panic**, in any run of a cluster, and in any run of a
node without peers. -/
theorem never_panics :
    (∀ cfg started h c, ClusterRun cfg started h c → PanicFree c) ∧
    ∀ id now ts n, NodeRun id [] now ts n → (∀ t ∈ ts, Unpeered t.act.input) →
      (∀ env i, Unpeered i → (n.handle env i).isSome = true) ∧
        ∀ e ∈ n.persistent.entries.inner, Readable e.payload := by
  refine ⟨fun cfg started h c hrun => panicFree_of_run hrun, ?_⟩
  intro id now ts n hrun halone
  have hreadable : ∀ e ∈ n.persistent.entries.inner, Readable e.payload := by
    intro e he
    obtain ⟨_, _, hcreates⟩ := created_of_unpeered hrun halone e he
    exact hcreates.readable
  refine ⟨fun env i hi => handle_isSome env ?_, hreadable⟩
  unfold Answerable
  split
  · exact hi.elim
  · exact hreadable
  · trivial

/-- The state in which a follower has stored the batch. -/
theorem never_panics_replication : ∃ h c, ClusterRun .trio (fun _ => 0) h c ∧
    (c.nodes (localhost 2114)).persistent.entries.inner ≠ [] ∧ PanicFree c := by
  obtain ⟨h, c, hrun, hne⟩ := ClusterRun.exists_of_replay .trio replication
    (fun _ c => (c.nodes (localhost 2114)).persistent.entries.inner ≠ []) (by decide +kernel)
  exact ⟨h, c, hrun, hne, never_panics.1 .trio _ h c hrun⟩

end Safety
end RaftPlayground
