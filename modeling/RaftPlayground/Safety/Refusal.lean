/-
# What a refused request leaves behind

A node that does not lead refuses an append request and stores nothing.  A leader stores
the events first and lets the request wait.  If it is deposed and elected again, the
election drains what waits and answers it with no index, and says nothing about the
entries: `reset` forgets them as requests, and the log keeps them unless a batch of
another leader truncated them in between.

`ForgetsStored` excludes just the elections in which the log still has an entry of the
request that waits.  What is then in the log with an event of a refused request was
stored for another one.
-/

import RaftPlayground.Safety.Origins
import RaftPlayground.Safety.Request

namespace RaftPlayground
namespace Safety

open Protocol Server

/-- The input completes the tally of a node that does not lead. -/
def Wins (n : Node) : Input → Prop
  | .msg (.voteReceived id term true) =>
    n.volatile.status ≠ .leader ∧ n.persistent.term = term ∧
      1 + (insert id n.volatile.tally).card > n.volatile.clusterSize / 2
  | _ => False

/-- A turn stored the entry for a request on another channel. -/
def StoredForOther (ts : List (Step Node Turn)) (resp : Sender) (e : Entry) : Prop :=
  ∃ t ∈ ts, ∃ r, r ≠ resp ∧ StoresFor t r e

/-- A node that wins an election while the request waits has no entry in its log that
was stored for that request alone. -/
def ForgetsStored (resp : Sender) (ts : List (Step Node Turn)) (t : Step Node Turn) : Prop :=
  Wins t.before t.act.input → resp ∈ pending t.before →
    ∀ e ∈ t.before.persistent.entries.inner, (∃ s ∈ ts, StoresFor s resp e) →
      StoredForOther ts resp e

/-- Every entry of the log with an event of the request was stored for another one. -/
def NoEffect (ts : List (Step Node Turn)) (n : Node) (streamId : String) (events : List Bytes)
    (resp : Sender) : Prop :=
  ∀ e ∈ n.persistent.entries.inner, e.payload ∈ events.map (putEvent streamId) →
    StoredForOther ts resp e

section

variable {id : NodeId} {seeds : List Seed} {now : ℕ} {ts : List (Step Node Turn)}
  {env : Env} {n n' : Node} {i : Input} {eff : Effects} {resp : Sender} {e : Entry}

theorem StoredForOther.cons (h : StoredForOther ts resp e) (t : Step Node Turn) :
    StoredForOther (t :: ts) resp e := by
  obtain ⟨s, hs, r, hr, hstores⟩ := h
  exact ⟨s, List.mem_cons_of_mem _ hs, r, hr, hstores⟩

theorem StoresFor.receivedAt {t : Step Node Turn} (h : StoresFor t resp e) :
    receivedAt t = [resp] := by
  obtain ⟨_, _, _, hinput, _⟩ := h
  rw [Safety.receivedAt, hinput]

theorem mem_received {t : Step Node Turn} (ht : t ∈ ts) (hreceived : receivedAt t = [resp]) :
    resp ∈ received ts :=
  List.mem_flatMap.2 ⟨t, ht, by rw [hreceived]; exact List.mem_singleton_self _⟩

/-- A refusal is that of a node that does not lead, or of one that wins while the request
waits; the log stays as it is. -/
theorem refused_cases (ht : n.Turned env i n' eff) (hans : (resp, none) ∈ eff.answers) :
    n'.persistent.entries = n.persistent.entries ∧
      (receivedAt ⟨n, ⟨env, i, eff⟩, n'⟩ = [resp] ∨ Wins n i ∧ resp ∈ pending n) := by
  cases ht with
  | idle _ silent =>
      rw [silent.2.2.1] at hans
      simp at hans
  | elected lead eq quorum =>
      obtain ⟨x, hx, heq⟩ := List.mem_map.1 hans
      obtain ⟨rfl, _⟩ := Prod.mk.inj heq
      exact ⟨rfl, Or.inr ⟨⟨lead, eq, quorum⟩, List.mem_map_of_mem hx⟩⟩
  | appendRefused =>
      obtain ⟨rfl, _⟩ := Prod.mk.inj (List.mem_singleton.1 hans)
      exact ⟨rfl, Or.inl rfl⟩
  | advanced | appendStored => simp at hans
  | _ => exact absurd hans List.not_mem_nil

theorem noEffect_of_run {streamId : String} {events : List Bytes}
    (hrun : NodeRun id seeds now ts n) (hchannels : (received ts).Nodup)
    (hforgets : Guarded (ForgetsStored resp) ts)
    (hcarried : ∀ t ∈ ts, ∀ e ∈ carriedAt t, e.payload ∉ events.map (putEvent streamId))
    (hans : ∃ t ∈ ts, (resp, none) ∈ t.act.effects.answers) :
    NoEffect ts n streamId events resp := by
  induction hrun with
  | nil => simp at hans
  | @cons ts n t n' hrun hnext ih =>
      have ht := Node.handle_turned hnext
      obtain ⟨_, hnd, hdisjoint⟩ := List.nodup_append.1 hchannels
      -- a request is not received again
      have hfresh : ∀ r, receivedAt ⟨n, t, n'⟩ = [r] → r ∉ received ts := by
        intro r hr hmem
        exact hdisjoint r (by rw [hr]; exact List.mem_singleton_self r) r hmem rfl
      obtain ⟨hnow, hearlier⟩ := List.forall_mem_cons.1 hcarried
      intro e he hpayload
      by_cases hbefore : ∃ s ∈ ts, (resp, none) ∈ s.act.effects.answers
      · have hold := ih hnd hforgets.2 hearlier hbefore
        rcases mem_log_turned ht he with he | ⟨_, _, _, _, _, hi, he⟩ | ⟨_, r, hstores⟩
        · exact (hold e he hpayload).cons _
        · refine absurd hpayload (hnow e ?_)
          rw [carriedAt, hi]
          exact he
        · refine ⟨_, List.mem_cons_self, r, ?_, hstores⟩
          rintro rfl
          obtain ⟨s, hs, hanswer⟩ := hbefore
          have hanswered : r ∈ answered ts :=
            List.mem_flatMap.2 ⟨s, hs, List.mem_map_of_mem hanswer⟩
          have hreceived := (conserved_of_run hrun).mem_iff.2 (List.mem_append_left _ hanswered)
          exact hfresh r hstores.receivedAt hreceived
      · have hanswer : (resp, none) ∈ t.effects.answers := by
          obtain ⟨s, hs, hanswer⟩ := hans
          rcases List.mem_cons.1 hs with rfl | hs
          · exact hanswer
          · exact absurd ⟨s, hs, hanswer⟩ hbefore
        obtain ⟨hkept, hcase⟩ := refused_cases ht hanswer
        have he' : e ∈ n.persistent.entries.inner := hkept ▸ he
        rcases origin_of_run hrun e he' with ⟨s, hs, hbatch⟩ | ⟨s, hs, r, hstores⟩
        · exact absurd hpayload (hearlier s hs e hbatch)
        · by_cases hr : r = resp
          · subst hr
            rcases hcase with hreceived | ⟨hwins, hwaits⟩
            · exact absurd (mem_received hs hstores.receivedAt) (hfresh r hreceived)
            · exact (hforgets.1 hwins hwaits e he' ⟨s, hs, hstores⟩).cons _
          · exact ⟨s, List.mem_cons_of_mem _ hs, r, hr, hstores⟩

/-- **A refused append has no effect** in a run of a node that does not win an election
while the request waits with an entry in the log: from the refusal on, no entry with one
of its events was stored for it, if none came from another leader. -/
theorem refused_append_has_no_effect (hrun : NodeRun id seeds now ts n)
    (hchannels : (received ts).Nodup) (hforgets : Guarded (ForgetsStored resp) ts)
    (hans : ∃ t ∈ ts, (resp, none) ∈ t.act.effects.answers) :
    ∀ streamId events,
      (∃ t ∈ ts, t.act.input = .msg (.appendStream streamId events resp)) →
      (∀ t ∈ ts, ∀ e ∈ carriedAt t, e.payload ∉ events.map (putEvent streamId)) →
        NoEffect ts n streamId events resp :=
  fun _ _ _ hcarried => noEffect_of_run hrun hchannels hforgets hcarried hans

end

instance (n : Node) (i : Input) : Decidable (Wins n i) := by
  unfold Wins
  split <;> infer_instance

/-- A node that wins has no entry of the term in which it received the request. -/
def Overwritten (resp : Sender) (ts : List (Step Node Turn)) (t : Step Node Turn) : Prop :=
  Wins t.before t.act.input → ∀ s ∈ ts, receivedAt s = [resp] →
    ∀ e ∈ t.before.persistent.entries.inner, s.before.persistent.term ≠ e.term

instance (resp : Sender) (ts : List (Step Node Turn)) (t : Step Node Turn) :
    Decidable (Overwritten resp ts t) := inferInstanceAs (Decidable (_ → _))

theorem forgetsStored_of_overwritten {resp : Sender} :
    ∀ {ts}, Guarded (Overwritten resp) ts → Guarded (ForgetsStored resp) ts
  | [], _ => trivial
  | _ :: _, ⟨h, hpast⟩ => by
      refine ⟨?_, forgetsStored_of_overwritten hpast⟩
      rintro hwins _ e he ⟨s, hs, hstores⟩
      have hreceived := hstores.receivedAt
      obtain ⟨_, _, _, _, _, hterm, _⟩ := hstores
      exact absurd hterm (h hwins s hs hreceived e he)

/-- The leader of the first term stores an event that reaches one follower.  It grants
that follower its vote in the next term, and is elected itself in the one after. -/
def reelection : List Action :=
  let A := localhost 2113
  let B := localhost 2114
  firstElection ++
    [.client ⟨3, 150⟩ A (.append "s" [[1]]), .tick ⟨4, 150⟩ A,
      .deliver ⟨5, 150⟩ (.entriesReq A B ⟨A, 1, 0, 1, 0, [⟨1, 1, putEvent "s" [1]⟩]⟩),
      .tick ⟨6, 150⟩ B, .deliver ⟨7, 150⟩ (.voteReq B A ⟨B, 2, 1, 1⟩),
      .tick ⟨200000000, 150⟩ A, .deliver ⟨200000001, 150⟩ (.voteReq A B ⟨A, 3, 1, 1⟩),
      .deliver ⟨200000002, 150⟩ (.voteResp B A 3 true)]

/-- In the third term it stores another event, which reaches nobody.  The leader of the fourth
term overwrites it, and the node is elected again in the fifth. -/
def overwriting : List Action :=
  let A := localhost 2113
  let B := localhost 2114
  let C := localhost 2115
  reelection ++
    [.client ⟨200000003, 150⟩ A (.append "s" [[2]]), .tick ⟨400000000, 150⟩ B,
      .deliver ⟨400000001, 150⟩ (.voteReq B C ⟨B, 4, 1, 1⟩),
      .deliver ⟨400000002, 150⟩ (.voteResp C B 4 true),
      .client ⟨400000003, 150⟩ B (.append "t" [[3]]), .tick ⟨400000004, 150⟩ B,
      .deliver ⟨400000005, 150⟩ (.entriesReq B A ⟨B, 4, 1, 1, 0, [⟨2, 4, putEvent "t" [3]⟩]⟩),
      .tick ⟨600000005, 150⟩ A, .deliver ⟨600000006, 150⟩ (.voteReq A B ⟨A, 5, 2, 4⟩),
      .deliver ⟨600000007, 150⟩ (.voteResp B A 5 true)]

/-- The request of the third term is refused in the fifth, when its entry is gone. -/
theorem refused_append_has_no_effect_overwritten : ∃ ts n,
    NodeRun (localhost 2113) (Config.trio.seeds (localhost 2113)) 0 ts n ∧
      (∃ t ∈ ts, t.after.persistent.entries.inner =
        [⟨1, 1, putEvent "s" [1]⟩, ⟨2, 3, putEvent "s" [2]⟩]) ∧
      n.persistent.entries.inner = [⟨1, 1, putEvent "s" [1]⟩, ⟨2, 4, putEvent "t" [3]⟩] ∧
      NoEffect ts n "s" [[2]] 1 := by
  obtain ⟨h, c, hrun, hstored, hlog, hchannels, hover, hans, hreq, hcarried⟩ :=
    ClusterRun.exists_of_replay .trio overwriting
      (fun h c =>
        (∃ t ∈ Cluster.turns (localhost 2113) h, t.after.persistent.entries.inner =
          [⟨1, 1, putEvent "s" [1]⟩, ⟨2, 3, putEvent "s" [2]⟩]) ∧
        (c.nodes (localhost 2113)).persistent.entries.inner =
          [⟨1, 1, putEvent "s" [1]⟩, ⟨2, 4, putEvent "t" [3]⟩] ∧
        (received (Cluster.turns (localhost 2113) h)).Nodup ∧
        Guarded (Overwritten 1) (Cluster.turns (localhost 2113) h) ∧
        (∃ t ∈ Cluster.turns (localhost 2113) h, (1, none) ∈ t.act.effects.answers) ∧
        (∃ t ∈ Cluster.turns (localhost 2113) h,
          t.act.input = .msg (.appendStream "s" [[2]] 1)) ∧
        ∀ t ∈ Cluster.turns (localhost 2113) h, ∀ e ∈ carriedAt t,
          e.payload ∉ [[2]].map (putEvent "s"))
      (by decide +kernel)
  exact ⟨_, _, hrun.turns_run (localhost 2113), hstored, hlog,
    refused_append_has_no_effect (hrun.turns_run (localhost 2113)) hchannels
      (forgetsStored_of_overwritten hover) hans "s" [[2]] hreq hcarried⟩

/-- The one append request of the run is refused at the second election, and its event is
still read afterwards. -/
theorem refused_append_kept : ∃ ts n,
    NodeRun (localhost 2113) (Config.trio.seeds (localhost 2113)) 0 ts n ∧ received ts = [0] ∧
      (∃ t ∈ ts, t.act.input = .msg (.appendStream "s" [[1]] 0)) ∧
      (∀ t ∈ ts, carriedAt t = []) ∧ (∃ t ∈ ts, (0, none) ∈ t.act.effects.answers) ∧
      n.persistent.onReadStream "s" = some [⟨"s", 1, 0, [1]⟩] ∧ ¬ NoEffect ts n "s" [[1]] 0 := by
  obtain ⟨h, c, hrun, hone, hreq, hcarried, hans, hread, e, he, hpayload⟩ :=
    ClusterRun.exists_of_replay .trio reelection
      (fun h c => received (Cluster.turns (localhost 2113) h) = [0] ∧
        (∃ t ∈ Cluster.turns (localhost 2113) h,
          t.act.input = .msg (.appendStream "s" [[1]] 0)) ∧
        (∀ t ∈ Cluster.turns (localhost 2113) h, carriedAt t = []) ∧
        (∃ t ∈ Cluster.turns (localhost 2113) h, (0, none) ∈ t.act.effects.answers) ∧
        (c.nodes (localhost 2113)).persistent.onReadStream "s" = some [⟨"s", 1, 0, [1]⟩] ∧
        ∃ e ∈ (c.nodes (localhost 2113)).persistent.entries.inner,
          e.payload ∈ [[1]].map (putEvent "s"))
      (by decide +kernel)
  refine ⟨_, _, hrun.turns_run (localhost 2113), hone, hreq, hcarried, hans, hread, ?_⟩
  intro hnone
  obtain ⟨t, ht, r, hr, hstores⟩ := hnone e he hpayload
  have hmem := mem_received ht hstores.receivedAt
  rw [hone] at hmem
  exact hr (List.mem_singleton.1 hmem)

end Safety
end RaftPlayground
