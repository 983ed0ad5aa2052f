/-
# Where entries come from

An entry is made in one place: a leader numbers an event of an append request and puts
its own term on it.  From there it travels in batches, read from the log of a leader
and stored by a follower, and no handler changes one on the way.  So every entry in a
log or in flight was made by a leader of its term (`Sourced`), whatever is delayed,
repeated by the network or truncated in between.

Its term is at most that of whoever holds it, a node or a request: a leader stores its
own term and sends what it stores, and a follower adopts the term of the request before
it stores the batch.  That takes terms that do not go down.
-/

import RaftPlayground.Safety.Terms
import RaftPlayground.Server.Upkeep

namespace RaftPlayground
namespace Safety

open Protocol Server Cluster

/-- The turn appends the entry for the request on the channel: a leader of the term of the
entry stores it for an event of the request. -/
def StoresFor (t : Step Node Turn) (resp : Sender) (e : Entry) : Prop :=
  ∃ streamId events new,
    t.act.input = .msg (.appendStream streamId events resp) ∧
      t.before.volatile.status = .leader ∧ t.before.persistent.term = e.term ∧
        t.after.persistent.entries.inner = t.before.persistent.entries.inner ++ new ∧ e ∈ new ∧
          ∃ event ∈ events, e.payload = putEvent streamId event

/-- The turn appends the entry. -/
def Creates (t : Step Node Turn) (e : Entry) : Prop := ∃ resp, StoresFor t resp e

/-- The entries a turn is sent by another leader. -/
def carriedAt (t : Step Node Turn) : List Entry :=
  match t.act.input with
  | .msg (.appendEntries _ _ _ _ _ es) => es
  | _ => []

/-- A turn of some node appended the entry. -/
def Sourced (d : Diary) (e : Entry) : Prop := ∃ x, ∃ t ∈ d x, Creates t e

theorem Sourced.turn {d : Diary} {e : Entry} (h : Sourced d e) (id : NodeId)
    (t : Step Node Turn) : Sourced (d.turn id t) e := by
  obtain ⟨x, hcreates⟩ := h
  exact ⟨x, exists_mem_turn hcreates⟩

/-- Every entry of a batch in flight has the property, relative to the term of the
request. -/
def InFlight (P : Entry → ℕ → Prop) : Packet → Prop
  | .entriesReq _ _ req => ∀ e ∈ req.entries, P e req.term
  | .voteReq .. | .voteResp .. | .entriesResp .. => True

/-- The same of the batch an input brings. -/
def Arriving (P : Entry → ℕ → Prop) : Input → Prop
  | .msg (.appendEntries term _ _ _ _ es) => ∀ e ∈ es, P e term
  | _ => True

theorem arriving_of_origin {P : Entry → ℕ → Prop} {members : List NodeId} {id : NodeId}
    {i : Input} (h : Origin members (InFlight P) id i) : Arriving P i := by
  cases h with
  | tick => trivial
  | client req => cases req <;> trivial
  | packet p _ _ hp => cases p <;> exact hp

theorem inFlight_answer {P : Entry → ℕ → Prop} {p q : Packet} {eff : Effects}
    (hq : q ∈ p.answer eff) : InFlight P q := by
  cases q with
  | entriesReq => exact (Packet.not_isRequest_of_mem_answer hq trivial).elim
  | voteReq | voteResp | entriesResp => trivial

section

variable {id : NodeId} {env : Env} {n n' : Node} {i : Input} {eff : Effects}

/-- What a follower has after it stored a batch. -/
theorem mem_stored {es stored : Entries} {term prev prevTerm : ℕ} {batch : List Entry}
    (hstore : (Node.truncated es term prev prevTerm).append batch = some stored) {e : Entry}
    (he : e ∈ stored.inner) : e ∈ es.inner ∨ e ∈ batch := by
  unfold Entries.append at hstore
  split at hstore
  · simp at hstore
  · obtain rfl := Option.some.inj hstore
    refine (List.mem_append.1 he).imp_left fun he => ?_
    unfold Node.truncated at he
    split_ifs at he
    · exact List.mem_of_mem_filter he
    · exact he

/-- **An entry of a log** was there before the turn, came in a batch of the term the
node adopts, or is new. -/
theorem mem_log_turned (ht : n.Turned env i n' eff) {e : Entry}
    (he : e ∈ n'.persistent.entries.inner) :
    e ∈ n.persistent.entries.inner ∨
      (∃ id prev prevTerm commit es,
        i = .msg (.appendEntries n'.persistent.term id prev prevTerm commit es) ∧ e ∈ es) ∨
      n'.persistent.term = e.term ∧ Creates ⟨n, ⟨env, i, eff⟩, n'⟩ e := by
  cases ht.logged with
  | kept eq => exact Or.inl (eq ▸ he)
  | stored input _ term_eq store =>
      refine (mem_stored store he).imp_right fun he => Or.inl ?_
      exact ⟨_, _, _, _, _, term_eq ▸ input, he⟩
  | @appended streamId events resp input lead _ term_eq store =>
      rw [store, appendEventsLoop_inner, List.mem_append] at he
      refine he.imp_right fun he => Or.inr ?_
      have hterm := term_of_mem_newEntries he
      exact ⟨term_eq.trans hterm.symm, resp, streamId, events, _, input, lead, hterm.symm,
        by rw [store, appendEventsLoop_inner], he, payload_of_mem_newEntries he⟩

theorem mem_of_mem_readEntriesLoop {index maxCount count : ℕ} {l : List Entry} {e : Entry}
    (he : e ∈ Entries.readEntriesLoop index maxCount l count) : e ∈ l := by
  induction l generalizing count with
  | nil => exact he
  | cons a l ih =>
      rw [Entries.readEntriesLoop] at he
      split_ifs at he
      · exact List.mem_cons_of_mem _ (ih he)
      · exact List.mem_cons.2 (Or.inl (List.mem_singleton.1 he))
      · exact (List.mem_cons.1 he).elim (fun h => h ▸ List.mem_cons_self)
          fun h => List.mem_cons_of_mem _ (ih h)

/-- What a turn sends has the term of the node and is taken from its log. -/
theorem inFlight_turned {P : Entry → ℕ → Prop} (ht : n.Turned env i n' eff)
    (hlog : ∀ e ∈ n'.persistent.entries.inner, P e n'.persistent.term) :
    ∀ p ∈ eff.packets id, InFlight P p := by
  intro p hp
  rcases Effects.mem_packets.1 hp with ⟨x, hx, rfl⟩ | ⟨x, hx, rfl⟩
  · trivial
  · obtain ⟨_, s, hsend⟩ := ht.sends hx
    obtain ⟨seed, _, rfl⟩ := Seeds.mem_sendAppendEntries hsend
    exact fun e he => hlog e (mem_of_mem_readEntriesLoop he)

/-- Every turn keeps a log of entries that a turn appended. -/
theorem sourced_turned {d : Diary} (id : NodeId)
    (hlog : ∀ e ∈ n.persistent.entries.inner, Sourced d e)
    (hin : Arriving (fun e _ => Sourced d e) i) (ht : n.Turned env i n' eff) :
    ∀ e ∈ n'.persistent.entries.inner, Sourced (d.turn id ⟨n, ⟨env, i, eff⟩, n'⟩) e := by
  intro e he
  rcases mem_log_turned ht he with he | ⟨_, _, _, _, _, rfl, he⟩ | ⟨_, hcreates⟩
  · exact (hlog e he).turn id _
  · exact (hin e he).turn id _
  · exact ⟨id, _, mem_turn_self, hcreates⟩

/-- Every turn that does not lower the term keeps the terms in the log below it. -/
theorem bounded_turned (hfits : TermFits env n i)
    (hlog : ∀ e ∈ n.persistent.entries.inner, e.term ≤ n.persistent.term)
    (hin : Arriving (fun e term => e.term ≤ term) i) (ht : n.Turned env i n' eff) :
    ∀ e ∈ n'.persistent.entries.inner, e.term ≤ n'.persistent.term := by
  intro e he
  rcases mem_log_turned ht he with he | ⟨_, _, _, _, _, rfl, he⟩ | ⟨hterm, _⟩
  · exact (hlog e he).trans (term_le_turned ht hfits)
  · exact hin e he
  · exact hterm.ge

end

/-- Entries appended by some turn, kept up over all runs of a cluster. -/
def sourcing (cfg : Config) : Upkeep cfg (fun _ _ _ => True) NoGhost where
  node d _ _ n := ∀ e ∈ n.persistent.entries.inner, Sourced d e
  packet d _ := InFlight fun e _ => Sourced d e
  fact _ _ _ := True
  packet_mono := by
    intro d _ _ id t p _ hp
    cases p with
    | entriesReq => exact fun e he => (hp e he).turn id t
    | voteReq | voteResp | entriesResp => trivial
  fact_mono _ hf := hf
  failed _ _ _ _ _ := trivial
  start _ := ⟨.none, fun _ e he => absurd he List.not_mem_nil⟩
  turn := by
    intro _ _ id _ _ _ _ _ _ _ hlog horigin _ ht
    have hlog' := sourced_turned id hlog (arriving_of_origin horigin) ht
    refine ⟨.none, le_rfl, hlog', ?_, inFlight_turned ht hlog', ?_, trivial⟩
    · exact fun _ _ _ hother e he => (hother e he).turn _ _
    · exact fun _ _ _ _ _ _ hq => inFlight_answer hq

/-- Terms of entries, kept below the term of who holds them. -/
def bounding (cfg : Config) : Upkeep cfg TermFits NoGhost where
  node _ _ _ n := ∀ e ∈ n.persistent.entries.inner, e.term ≤ n.persistent.term
  packet _ _ := InFlight fun e term => e.term ≤ term
  fact _ _ _ := True
  packet_mono _ hp := hp
  fact_mono _ hf := hf
  failed _ _ _ _ _ := trivial
  start _ := ⟨.none, fun _ e he => absurd he List.not_mem_nil⟩
  turn _ _ hlog horigin hfits ht := by
    have hlog' := bounded_turned hfits hlog (arriving_of_origin horigin) ht
    exact ⟨.none, le_rfl, hlog', fun _ _ _ h => h, inFlight_turned ht hlog',
      fun _ _ _ _ _ _ hq => inFlight_answer hq, trivial⟩

/-- **An entry of a node** came in a batch or was stored for a request. -/
theorem origin_of_run {id : NodeId} {seeds : List Seed} {now : ℕ}
    {ts : List (Step Node Turn)} {n : Node} (hrun : NodeRun id seeds now ts n) :
    ∀ e ∈ n.persistent.entries.inner,
      (∃ t ∈ ts, e ∈ carriedAt t) ∨ ∃ t ∈ ts, Creates t e := by
  induction hrun with
  | nil => exact fun e he => absurd he List.not_mem_nil
  | @cons ts n t n' _ hnext ih =>
      intro e he
      rcases mem_log_turned (Node.handle_turned hnext) he with he | ⟨_, _, _, _, _, hi, he⟩ | hnew
      · rcases ih e he with ⟨s, hs, hcarried⟩ | ⟨s, hs, hstores⟩
        · exact Or.inl ⟨s, List.mem_cons_of_mem _ hs, hcarried⟩
        · exact Or.inr ⟨s, List.mem_cons_of_mem _ hs, hstores⟩
      · refine Or.inl ⟨_, List.mem_cons_self, ?_⟩
        rw [carriedAt, hi]
        exact he
      · exact Or.inr ⟨_, List.mem_cons_self, hnew.2⟩

/-- What a run says about the entries its nodes hold and its requests carry. -/
structure EntriesSourced (h : List (Step Cluster Action)) (c : Cluster) : Prop where
  log : ∀ id, ∀ e ∈ (c.nodes id).persistent.entries.inner,
    (∃ x, ∃ t ∈ turns x h, Creates t e) ∧ e.term ≤ (c.nodes id).persistent.term
  flight : ∀ src dst req, .entriesReq src dst req ∈ c.net → ∀ e ∈ req.entries,
    (∃ x, ∃ t ∈ turns x h, Creates t e) ∧ e.term ≤ req.term

/-- What a node without peers is sent: ticks and the requests of clients. -/
def Unpeered : Input → Prop
  | .tick | .msg (.appendStream ..) | .msg (.readStream ..) | .msg .status => True
  | .msg (.requestVote ..) | .msg (.appendEntries ..) | .msg (.voteReceived ..)
  | .msg (.appendEntriesResp ..) => False

theorem created_of_unpeered {id : NodeId} {now : ℕ} {ts : List (Step Node Turn)} {n : Node}
    (hrun : NodeRun id [] now ts n) (halone : ∀ t ∈ ts, Unpeered t.act.input) :
    ∀ e ∈ n.persistent.entries.inner, ∃ t ∈ ts, Creates t e := by
  intro e he
  rcases origin_of_run hrun e he with ⟨t, ht, hcarried⟩ | hcreates
  · have hinput := halone t ht
    unfold carriedAt at hcarried
    split at hcarried
    · next heq =>
      rw [heq] at hinput
      exact hinput.elim
    · simp at hcarried
  · exact hcreates

/-- A node without peers keeps its term, and stores its own entries in it. -/
theorem bounded_of_unpeered {id : NodeId} {now : ℕ} {ts : List (Step Node Turn)} {n : Node}
    (hrun : NodeRun id [] now ts n) (halone : ∀ t ∈ ts, Unpeered t.act.input) :
    n.volatile.seeds.ids = [] ∧ ∀ e ∈ n.persistent.entries.inner, e.term ≤ n.persistent.term := by
  refine Run.invariant (fun t => Unpeered t.act.input)
    (fun _ n => n.volatile.seeds.ids = [] ∧
      ∀ e ∈ n.persistent.entries.inner, e.term ≤ n.persistent.term)
    ⟨rfl, fun e he => absurd he List.not_mem_nil⟩ ?_ hrun halone
  intro _ n t n' _ ⟨hids, hlog⟩ hnext hinput
  have ht := Node.handle_turned hnext
  obtain ⟨env, i, eff⟩ := t
  replace hinput : Unpeered i := hinput
  have hfits : TermFits env n i := by
    cases i with
    | tick => exact fun hdue => absurd hids (Seeds.isEmpty_eq_false.1 hdue.1)
    | msg m => trivial
  have hin : Arriving (fun e term => e.term ≤ term) i := by
    unfold Arriving
    split
    · exact hinput.elim
    · trivial
  exact ⟨ht.place.2.2.trans hids, bounded_turned hfits hlog hin ht⟩

/-- **No invented entries, and bounded terms**, in every run of a cluster without an
election timeout at the end of `u64`, and in every run of a node without peers. -/
theorem no_invented_entries :
    (∀ cfg started h c, ClusterRun cfg started h c → (∀ st ∈ h, Meets TermFits st) →
      EntriesSourced h c) ∧
    ∀ id now ts n, NodeRun id [] now ts n → (∀ t ∈ ts, Unpeered t.act.input) →
      ∀ e ∈ n.persistent.entries.inner,
        (∃ t ∈ ts, Creates t e) ∧ e.term ≤ n.persistent.term := by
  constructor
  · intro cfg started h c hrun hfits
    obtain ⟨_, hsource, _⟩ := (sourcing cfg).run hrun fun _ _ _ _ => trivial
    obtain ⟨_, hbound, _⟩ := (bounding cfg).run hrun hfits
    constructor
    case log => exact fun id e he => ⟨hsource.nodes id e he, hbound.nodes id e he⟩
    case flight =>
      exact fun _ _ _ hreq e he => ⟨hsource.net _ hreq e he, hbound.net _ hreq e he⟩
  · intro id now ts n hrun halone e he
    exact ⟨created_of_unpeered hrun halone e he, (bounded_of_unpeered hrun halone).2 e he⟩

/-- A follower has the entries of the leader. -/
theorem no_invented_entries_replication : ∃ h c, ClusterRun .trio (fun _ => 0) h c ∧
    (c.nodes (localhost 2114)).persistent.entries.inner ≠ [] ∧ EntriesSourced h c := by
  obtain ⟨h, c, hrun, hfits, hne⟩ := ClusterRun.exists_of_replay .trio replication
    (fun h c => (∀ st ∈ h, Meets TermFits st) ∧
      (c.nodes (localhost 2114)).persistent.entries.inner ≠ []) (by decide +kernel)
  exact ⟨h, c, hrun, hne, no_invented_entries.1 .trio _ h c hrun hfits⟩

end Safety
end RaftPlayground
