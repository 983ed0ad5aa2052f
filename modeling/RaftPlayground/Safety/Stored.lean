/-
# What a confirmation stands for

A leader counts a batch once its peer says it has stored it.  `StoresBatch` is the turn of the
peer that the leader hears of, and `storing` keeps up, over all runs of a cluster, that nothing else
is ever confirmed: behind every confirmation a node was handed, and behind every one in flight, is a
turn of the peer after which its log ended with the batch.

So an append that is answered with an index was preceded by such a turn of every peer
(`stored_of_acked`).
-/

import RaftPlayground.Safety.Forward
import RaftPlayground.Server.Upkeep

namespace RaftPlayground
namespace Safety

open Protocol Server Cluster

/-- The node accepted a batch of the leader that ends at the index, and its log ends with the whole
batch afterwards. -/
def StoresBatch (leader : NodeId) (index : ℕ) (t : Step Node Turn) : Prop :=
  ∃ term prev prevTerm commit es last,
    t.act.input = .msg (.appendEntries term leader prev prevTerm commit es) ∧
      t.act.effects.reply = some (term, true) ∧ es.getLast? = some last ∧ last.index = index ∧
        es <:+ t.after.persistent.entries.inner

section

variable {env : Env} {n n' : Node} {eff : Effects}

/-- A node that says it accepted a batch has stored it. -/
theorem storesBatch_of_reply {term prev prevTerm commit term' : ℕ} {leader : NodeId}
    {es : List Entry} {last : Entry}
    (ht : n.Turned env (.msg (.appendEntries term leader prev prevTerm commit es)) n' eff)
    (hreply : eff.reply = some (term', true)) (hlast : es.getLast? = some last) :
    StoresBatch leader last.index
      ⟨n, ⟨env, .msg (.appendEntries term leader prev prevTerm commit es), eff⟩, n'⟩ := by
  cases ht with
  | idle quiet => exact quiet.elim
  | entriesStale | entriesUnknown => exact nomatch hreply
  | entriesEmpty => exact nomatch hlast
  | @entriesStored _ _ _ _ _ _ _ stored _ _ end_ store =>
      refine ⟨_, _, _, _, _, _, rfl, rfl, hlast, rfl, ?_⟩
      rw [Entries.append, end_] at store
      obtain rfl := Option.some.inj store
      exact List.suffix_append _ es

end

/-- What a packet in flight says was stored is stored. -/
def Warranted (d : Diary) : Packet → Prop
  | .entriesResp src dst (some index) (some ⟨_, true⟩) => ∃ t ∈ d src, StoresBatch dst index t
  | _ => True

theorem Warranted.turn {d : Diary} {p : Packet} (h : Warranted d p) (id : NodeId)
    (t : Step Node Turn) : Warranted (d.turn id t) p := by
  unfold Warranted at h ⊢
  split
  · exact exists_mem_turn h
  · trivial

/-- An answer says what the turn it comes from did. -/
theorem Warranted.answer {members : List NodeId} {d : Diary} {p q : Packet} {env : Env}
    {n n' : Node} {eff : Effects} (hr : p.Routed members) (ht : n.Turned env (.msg p.msg) n' eff)
    (hq : q ∈ p.answer eff) :
    Warranted (d.turn p.dst ⟨n, ⟨env, .msg p.msg, eff⟩, n'⟩) q := by
  cases p with
  | voteReq =>
      obtain ⟨_, _, _, rfl⟩ := Packet.mem_answer_voteReq.1 hq
      trivial
  | voteResp | entriesResp => exact absurd hq List.not_mem_nil
  | entriesReq src dst req =>
      obtain ⟨term, success, hreply, rfl⟩ := Packet.mem_answer_entriesReq.1 hq
      have hsigned : req.leaderId = src := hr.signed
      unfold Warranted
      split
      · next heq =>
          obtain ⟨rfl, rfl, hend, hresp⟩ := Packet.entriesResp.inj heq
          obtain ⟨rfl, rfl⟩ := AppendEntriesResp.mk.inj (Option.some.inj hresp)
          obtain ⟨last, hlast, rfl⟩ := Option.map_eq_some_iff.1 hend
          exact ⟨_, mem_turn_self, hsigned ▸ storesBatch_of_reply ht hreply hlast⟩
      · trivial

/-- Confirmations, kept up over all runs of a cluster. -/
def storing (cfg : Config) : Upkeep cfg (fun _ _ _ => True) NoGhost where
  node d _ id _ := ∀ t ∈ d id, ∀ peer, ∀ index ∈ confirmedBy peer t.act.input,
    ∃ t' ∈ d peer, StoresBatch id index t'
  packet d _ := Warranted d
  fact _ _ _ := True
  packet_mono _ hp := hp.turn _ _
  fact_mono _ hf := hf
  failed _ _ _ _ b := by cases b <;> trivial
  start _ := ⟨.none, fun _ _ ht => absurd ht List.not_mem_nil⟩
  turn := by
    intro d _ id env n i n' eff _ _ hnode horigin _ ht
    refine ⟨.none, le_rfl, ?_, ?_, ?_, ?_, trivial⟩
    · intro t hmem peer index hconfirmed
      rw [Diary.turn, Function.update_self] at hmem
      rcases List.mem_cons.1 hmem with rfl | hmem
      · obtain ⟨term, rfl⟩ := confirmedBy_eq_some.1 hconfirmed
        generalize hi : Input.msg (.appendEntriesResp peer (some index) (some ⟨term, true⟩)) = i
          at horigin
        cases horigin with
        | tick => exact nomatch hi
        | client req => cases req <;> exact nomatch hi
        | packet p _ dst known =>
            cases p with
            | voteReq | voteResp | entriesReq => exact nomatch hi
            | entriesResp src dst' batchEnd resp =>
                obtain ⟨rfl, rfl, rfl⟩ := Msg.appendEntriesResp.inj (Input.msg.inj hi)
                obtain rfl := dst
                exact exists_mem_turn known
      · exact exists_mem_turn (hnode t hmem peer index hconfirmed)
    · intro x m hx hother t hmem peer index hconfirmed
      rw [Diary.turn, Function.update_of_ne hx] at hmem
      exact exists_mem_turn (hother t hmem peer index hconfirmed)
    · intro p hp
      rcases Effects.mem_packets.1 hp with ⟨_, _, rfl⟩ | ⟨_, _, rfl⟩
      · trivial
      · trivial
    · intro p hr hdst hi _ q hq
      obtain rfl := hdst
      obtain rfl := hi
      exact Warranted.answer hr ht hq

/-- What a leader counts on a peer, it was told. -/
theorem exists_confirmedBy {id : NodeId} {ts : List (Step Node Turn)}
    (hpos : 0 < lastConfirmed id ts) :
    ∃ t ∈ ts, confirmedBy id t.act.input = some (lastConfirmed id ts) := by
  induction ts with
  | nil => exact absurd hpos (lt_irrefl 0)
  | cons t ts ih =>
      rw [lastConfirmed] at hpos ⊢
      split_ifs at hpos ⊢ with hswitch
      · exact absurd hpos (lt_irrefl 0)
      · cases hconfirmed : confirmedBy id t.act.input with
        | some index => exact ⟨t, List.mem_cons_self, hconfirmed⟩
        | none =>
            rw [hconfirmed, Option.getD_none] at hpos
            obtain ⟨t', ht', hsome⟩ := ih hpos
            exact ⟨t', List.mem_cons_of_mem _ ht', hsome⟩

/-- **An answered append is on every peer.**  Before a leader answers a request with an index, every
other member has stored a batch of the leader that ends there or beyond. -/
theorem stored_of_acked {cfg : Config} {started : NodeId → ℕ} {h : List (Step Cluster Action)}
    {c : Cluster} (hrun : ClusterRun cfg started h c) {x y : NodeId} {t : Step Node Turn}
    (ht : t ∈ turns x h) {resp : Sender} {index : ℕ} (hpos : 0 < index)
    (hanswer : (resp, some index) ∈ t.act.effects.answers) (hy : y ∈ cfg.members) (hne : y ≠ x) :
    ∃ t' ∈ turns y h, ∃ index', index ≤ index' ∧ StoresBatch x index' t' := by
  obtain ⟨g, hinv, _⟩ := (storing cfg).run hrun fun _ _ _ _ => trivial
  have hturns := hrun.turns_run x
  obtain ⟨peer, hpeer, hpeerx⟩ := cfg.exists_peer x
  have hseeds : cfg.seeds x ≠ [] :=
    List.ne_nil_of_mem (List.mem_map_of_mem (List.mem_filter.2 ⟨hpeer, decide_eq_true hpeerx⟩))
  -- the leader counts the index on the member
  obtain ⟨h', hrun', hsuf, hnext⟩ := hturns.step_of_mem ht
  have hpeers := isEmpty_of_run hrun' hseeds
  obtain ⟨_, hlead, _, _, hle⟩ := (Node.handle_turned hnext).confirmed hpeers hanswer
  have htracks := tracks_of_run (hturns.of_suffix hsuf) hseeds hlead
  have hplaced := NodeRun.placed (hturns.of_suffix hsuf)
  obtain ⟨seed, hseed, rfl⟩ := List.mem_map.1 ((hplaced.mem_ids y).2 ⟨hy, hne⟩)
  have hcounted : index ≤ lastConfirmed seed.id (t :: h') :=
    htracks.matchIndex seed hseed ▸ hle.trans (Seeds.computeLowestReplicatedIndex_le hseed)
  -- so the member has told it
  obtain ⟨t', ht', hconfirmed⟩ := exists_confirmedBy (hpos.trans_le hcounted)
  obtain ⟨t'', ht'', hstores⟩ := hinv.nodes x t' (hsuf.subset ht') seed.id _ hconfirmed
  exact ⟨t'', ht'', _, hcounted, hstores⟩

end Safety
end RaftPlayground
