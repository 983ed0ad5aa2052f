/-
# A leader only appends

A leader numbers what it appends from the cached last index, which it does not own: as a
follower, in earlier terms, it let every batch set it.  Both writers of the log leave it
at the index of the last entry, whatever the batches say, so the cached tail is the tail
of the list over every run (`cached_of_run`).  The truncation leaves the cache behind
and the batch that follows sets it, which is why the two may not be taken apart.

What a node does to its log while it leads is then a matter of one handler: nothing but
an append request moves it (`leader_append_only`).
-/

import RaftPlayground.Safety.RoundTrip
import RaftPlayground.Server.Log

namespace RaftPlayground
namespace Safety

open Protocol Server

/-- The index of the last entry, `0` if there is none. -/
def tailIndex (l : List Entry) : ℕ := (l.getLast?.map Entry.index).getD 0

/-- The cached tail of the log is the tail of its list. -/
structure Cached (es : Entries) : Prop where
  lastIndex : es.lastIndex = tailIndex es.inner
  lastTerm : es.lastTerm = tailTerm 0 es.inner

theorem cached_add (es : Entries) (e : Entry) : Cached (es.add e) := by
  constructor
  · rw [Entries.add, tailIndex, List.getLast?_concat]
    rfl
  · rw [Entries.add, tailTerm, List.getLast?_concat]
    rfl

theorem Cached.append {es stored : Entries} {batch : List Entry}
    (hstore : es.append batch = some stored) : Cached stored := by
  unfold Entries.append at hstore
  split at hstore
  · simp at hstore
  · next last hlast =>
    obtain rfl := Option.some.inj hstore
    have hne : batch ≠ [] := by
      rintro rfl
      simp at hlast
    constructor
    · rw [tailIndex, List.getLast?_append_of_ne_nil _ hne, hlast]
      rfl
    · rw [tailTerm, List.getLast?_append_of_ne_nil _ hne, hlast]
      rfl

theorem Cached.appendEventsLoop {es : Entries} (h : Cached es) (streamId : String)
    (term : ℕ) (events : List Bytes) (index : ℕ) :
    Cached (appendEventsLoop streamId term events index es).1 := by
  induction events generalizing index es with
  | nil => exact h
  | cons event events ih => exact ih (cached_add es _) _

/-- **Every turn keeps the cached tail in step**, whatever it is sent. -/
theorem cached_turned {env : Env} {n n' : Node} {i : Input} {eff : Effects}
    (h : Cached n.persistent.entries) (ht : n.Turned env i n' eff) :
    Cached n'.persistent.entries := by
  cases ht.logged with
  | kept eq => exact eq ▸ h
  | stored _ _ _ store => exact .append store
  | appended _ _ _ _ store =>
      rw [store]
      exact h.appendEventsLoop _ _ _ _

/-- The numbers a leader gives out are consecutive, below the end of `u64`. -/
theorem map_index_newEntries {streamId : String} {term index : ℕ} {events : List Bytes}
    (hindex : index < 2 ^ 64 - 1)
    (hfits : ∀ e ∈ newEntries streamId term events index, e.index < 2 ^ 64 - 1) :
    (newEntries streamId term events index).map Entry.index =
      List.range' (index + 1) events.length := by
  induction events generalizing index with
  | nil => rfl
  | cons event events ih =>
      rw [newEntries, List.forall_mem_cons] at hfits
      have hnext : addU64 index 1 = index + 1 := addU64_of_lt (by omega)
      have hbelow : addU64 index 1 < 2 ^ 64 - 1 := hfits.1
      rw [newEntries, List.map_cons, ih hbelow hfits.2, hnext, List.length_cons,
        List.range'_succ]

/-- What a turn of a leader adds to its log: the events of its input, in order. -/
structure Appends (t : Step Node Turn) (new : List Entry) : Prop where
  log : t.after.persistent.entries.inner = t.before.persistent.entries.inner ++ new
  payload : new.map Entry.payload = (eventsOf t.act.input).map fun x => putEvent x.1 x.2
  index : new.map Entry.index =
    List.range' (tailIndex t.before.persistent.entries.inner + 1) (eventsOf t.act.input).length
  term : ∀ e ∈ new, e.term = t.before.persistent.term ∧ e.term = t.after.persistent.term

section

variable {env : Env} {n n' : Node} {i : Input} {eff : Effects}

theorem tailIndex_lt {l : List Entry} (hl : ∀ e ∈ l, e.index < 2 ^ 64 - 1) :
    tailIndex l < 2 ^ 64 - 1 := by
  unfold tailIndex
  cases hlast : l.getLast? with
  | none => show 0 < 2 ^ 64 - 1; omega
  | some e => exact hl e (List.mem_of_getLast? hlast)

/-- **One turn of a leader** that goes on leading. -/
theorem appends_turned (hcached : Cached n.persistent.entries)
    (hbelow : ∀ e ∈ n.persistent.entries.inner, e.index < 2 ^ 64 - 1)
    (hbelow' : ∀ e ∈ n'.persistent.entries.inner, e.index < 2 ^ 64 - 1)
    (hlead : n.volatile.status = .leader) (hleads : n'.volatile.status = .leader)
    (ht : n.Turned env i n' eff) : ∃ new, Appends ⟨n, ⟨env, i, eff⟩, n'⟩ new := by
  cases ht.logged with
  | kept eq ignores =>
      have hnone : eventsOf i = [] := eventsOf_eq_nil (ignores hlead)
      refine ⟨[], ?_, ?_, ?_, fun e he => absurd he List.not_mem_nil⟩
      · show n'.persistent.entries.inner = _
        rw [eq, List.append_nil]
      · show _ = (eventsOf i).map _
        rw [hnone]
        rfl
      · show _ = List.range' _ (eventsOf i).length
        rw [hnone]
        rfl
  | stored _ follows =>
      rw [hleads] at follows
      cases follows
  | @appended streamId events resp input _ _ term_eq store =>
      rw [hcached.lastIndex] at store
      have hlog : n'.persistent.entries.inner = n.persistent.entries.inner ++
          newEntries streamId n.persistent.term events (tailIndex n.persistent.entries.inner) := by
        rw [store, appendEventsLoop_inner]
      have hevents : eventsOf i = events.map fun event => (streamId, event) := by rw [input]; rfl
      refine ⟨_, hlog, ?_, ?_, ?_⟩
      · show _ = (eventsOf i).map _
        rw [hevents, map_payload_newEntries, List.map_map]
        rfl
      · show _ = List.range' _ (eventsOf i).length
        rw [hevents, List.length_map]
        refine map_index_newEntries (tailIndex_lt hbelow) fun e he => hbelow' e ?_
        rw [hlog]
        exact List.mem_append_right _ he
      · intro e he
        have hterm := term_of_mem_newEntries he
        exact ⟨hterm, hterm.trans term_eq.symm⟩

end

section

variable {id : NodeId} {seeds : List Seed} {now : ℕ} {ts : List (Step Node Turn)} {n : Node}

theorem cached_of_run (hrun : NodeRun id seeds now ts n) : Cached n.persistent.entries :=
  Run.invariant (fun _ => True) (fun _ n => Cached n.persistent.entries) ⟨rfl, rfl⟩
    (fun _ _ _ _ _ h hnext _ => cached_turned h (Node.handle_turned hnext)) hrun
    fun _ _ => trivial

/-- **The cached tail.**  In every state of a run of a node, whatever it is sent, the last index
and the last term are those of the last entry, and zero if there is none. -/
theorem cached_tail (hrun : NodeRun id seeds now ts n) :
    ∀ m, Visited (Node.start id seeds now) ts m →
      (m.persistent.entries.inner = [] →
        m.persistent.entries.lastIndex = 0 ∧ m.persistent.entries.lastTerm = 0) ∧
      ∀ last, m.persistent.entries.inner.getLast? = some last →
        m.persistent.entries.lastIndex = last.index ∧
          m.persistent.entries.lastTerm = last.term := by
  intro m hvisit
  obtain ⟨h', _, hrun'⟩ := hrun.of_visited hvisit
  obtain ⟨hindex, hterm⟩ := cached_of_run hrun'
  rw [hindex, hterm, tailIndex, tailTerm]
  constructor
  · intro hnone
    rw [hnone]
    exact ⟨rfl, rfl⟩
  · intro last hlast
    rw [hlast]
    exact ⟨rfl, rfl⟩

/-- A node takes a batch whose indices and terms go back. -/
theorem cached_tail_backwards : ∃ t n, NodeRun (localhost 2113) [] 0 [t] n ∧
    t.act.input =
      .msg (.appendEntries 3 (localhost 2114) 0 0 0 [⟨7, 3, [1]⟩, ⟨2, 1, [2]⟩]) ∧
    n.persistent.entries.lastIndex = 2 ∧ n.persistent.entries.lastTerm = 1 := by
  let n := Node.start (localhost 2113) [] 0
  let i : Input := .msg (.appendEntries 3 (localhost 2114) 0 0 0 [⟨7, 3, [1]⟩, ⟨2, 1, [2]⟩])
  have hhandled : (n.handle ⟨0, 150⟩ i).isSome = true := by decide
  obtain ⟨⟨n', eff⟩, hnext⟩ := Option.isSome_iff_exists.1 hhandled
  have hrun : NodeRun (localhost 2113) [] 0 [⟨n, ⟨⟨0, 150⟩, i, eff⟩, n'⟩] n' := .cons .nil hnext
  have hlast : n'.persistent.entries.inner.getLast? = some ⟨2, 1, [2]⟩ := by
    obtain ⟨rfl, rfl⟩ := Prod.mk.inj (Option.some.inj hnext)
    rfl
  exact ⟨_, n', hrun, rfl, (cached_tail hrun n' hrun.visited).2 _ hlast⟩

/-- **Leader Append-Only.**  In every run of a node in which no index reaches the end of
`u64`, a turn it leads before and after adds the events of its input, numbered from the
last index on, in the term of the node, and changes nothing else. -/
theorem leader_append_only (hrun : NodeRun id seeds now ts n)
    (hfits : ∀ t ∈ ts, ∀ e ∈ t.after.persistent.entries.inner, e.index < 2 ^ 64 - 1) :
    ∀ t ∈ ts, t.before.volatile.status = .leader → t.after.volatile.status = .leader →
      ∃ new, Appends t new := by
  intro t ht hlead hleads
  obtain ⟨h', hrun', hsuf, hnext⟩ := hrun.step_of_mem ht
  have hbelow : ∀ e ∈ t.before.persistent.entries.inner, e.index < 2 ^ 64 - 1 := by
    rcases Run.visited hrun' with hstart | ⟨s, hs, hafter⟩
    · rw [hstart]
      exact fun e he => absurd he List.not_mem_nil
    · rw [← hafter]
      exact hfits s (hsuf.subset (List.mem_cons_of_mem _ hs))
  exact appends_turned (cached_of_run hrun') hbelow (hfits t ht) hlead hleads
    (Node.handle_turned hnext)

/-- The leader stores the request of two events. -/
theorem leader_append_only_replication :
    ∃ ts n, NodeRun (localhost 2113) (Config.trio.seeds (localhost 2113)) 0 ts n ∧
      ∃ t ∈ ts, eventsOf t.act.input = [("s", [1]), ("s", [2])] ∧ ∃ new, Appends t new := by
  obtain ⟨h, c, hrun, hfits, t, ht, hevents, hlead, hleads⟩ :=
    ClusterRun.exists_of_replay .trio replication
      (fun h _ =>
        (∀ t ∈ Cluster.turns (localhost 2113) h, ∀ e ∈ t.after.persistent.entries.inner,
          e.index < 2 ^ 64 - 1) ∧
        ∃ t ∈ Cluster.turns (localhost 2113) h, eventsOf t.act.input = [("s", [1]), ("s", [2])] ∧
          t.before.volatile.status = .leader ∧ t.after.volatile.status = .leader)
      (by decide +kernel)
  have hturns := hrun.turns_run (localhost 2113)
  exact ⟨_, _, hturns, t, ht, hevents, leader_append_only hturns hfits t ht hlead hleads⟩

end

end Safety
end RaftPlayground
