/-
# What the members hold

A follower that stores a batch has a prefix of the log of the leader's term, and a
leader counts that prefix when the answer arrives.  The chronicle of elections and
logs gains, for every member and term, how much of the log of that term the member
was seen to hold (`Annals`).  A member keeps what it holds until the leader of a
later term contradicts it (`Holding.kept`): a truncation that drops entries stands
beside an entry of another term, if batches do not shorten the log for nothing
(`KeepsTail`).  A leader started as a member, so it inherits what it held
(`Protocol.Ledger.Inherits`).

An index is confirmed if some log is held up to it by every member, and every
commit index of the cluster is confirmed.  What is confirmed is then in the log of
every member, by `Protocol.Ledger.prefix_of_held`.
-/

import RaftPlayground.Safety.Matching

namespace RaftPlayground
namespace Safety

open Protocol Server Cluster

/-- The conditions on a turn under which what is committed is kept. -/
structure KeepsCommitted (env : Env) (n : Node) (i : Input) : Prop where
  matchesLogs : MatchesLogs env n i
  keepsTail : KeepsTail n i
  answersNow : AnswersNow n i

instance (env : Env) (n : Node) (i : Input) : Decidable (KeepsCommitted env n i) :=
  decidable_of_iff (MatchesLogs env n i ∧ KeepsTail n i ∧ AnswersNow n i)
    ⟨fun h => ⟨h.1, h.2.1, h.2.2⟩, fun h => ⟨h.1, h.2, h.3⟩⟩

/-- The chronicle, and how much of the log of every term each member was seen to hold. -/
structure Annals (members : List NodeId) extends Chronicle members where
  held : NodeId → ℕ → ℕ
  held_le : ∀ p t, held p t ≤ (ledger.log t).length
  inherits : ledger.Inherits ballots.leader held
  leader_mem : ∀ t p, ballots.leader t = some p → p ∈ members

/-- One member holds more of one term. -/
def raise (held : NodeId → ℕ → ℕ) (id : NodeId) (t k : ℕ) (p : NodeId) (u : ℕ) : ℕ :=
  if p = id ∧ u = t then max (held p u) k else held p u

section

variable {held : NodeId → ℕ → ℕ} {id p : NodeId} {t u k : ℕ}

theorem le_raise : held p u ≤ raise held id t k p u := by
  unfold raise
  split_ifs
  · exact le_max_left ..
  · exact le_rfl

theorem le_raise_self : k ≤ raise held id t k id t := by
  rw [raise, if_pos ⟨rfl, rfl⟩]
  exact le_max_right ..

theorem raise_of_ne (h : p ≠ id) : raise held id t k p u = held p u := if_neg fun heq => h heq.1

theorem raise_of_lt (h : u < t) : raise held id t k p u = held p u :=
  if_neg fun heq => h.ne heq.2

theorem raise_cases {i : ℕ} (h : i ≤ raise held id t k p u) :
    i ≤ held p u ∨ p = id ∧ u = t ∧ i ≤ k := by
  unfold raise at h
  split_ifs at h with heq
  · exact (le_max_iff.1 h).imp_right fun hk => ⟨heq.1, heq.2, hk⟩
  · exact Or.inl h

end

section

variable {members : List NodeId}

namespace Annals

/-- Nothing has happened. -/
def empty : Annals members where
  toChronicle := .empty
  held _ _ := 0
  held_le _ _ := Nat.zero_le _
  inherits _ _ hp := nomatch hp
  leader_mem _ _ hp := nomatch hp

instance : Preorder (Annals members) where
  le g g' := g.toChronicle ≤ g'.toChronicle ∧ ∀ p t, g.held p t ≤ g'.held p t
  le_refl _ := ⟨le_rfl, fun _ _ => le_rfl⟩
  le_trans _ _ _ h₁ h₂ := ⟨h₁.1.trans h₂.1, fun p t => (h₁.2 p t).trans (h₂.2 p t)⟩

/-- The annals grow by what the node `id` does. -/
structure Grows (id : NodeId) (n n' : Node) (g g' : Annals members) : Prop where
  chronicle : Chronicle.Grows id n n' g.toChronicle g'.toChronicle
  held_mono : ∀ p t, g.held p t ≤ g'.held p t
  held_of_ne : ∀ p t, p ≠ id → g'.held p t = g.held p t

theorem Grows.le {id : NodeId} {n n' : Node} {g g' : Annals members} (h : Grows id n n' g g') :
    g ≤ g' :=
  ⟨h.chronicle.le, h.held_mono⟩

/-- What a member holds of the log of a term does not change. -/
theorem take_mono {g : Annals members} {g' : Chronicle members} (hle : g.ledger ≤ g'.ledger)
    {p : NodeId} {t i : ℕ} (hi : i ≤ g.held p t) :
    (g'.ledger.log t).take i = (g.ledger.log t).take i :=
  Ledger.take_mono hle (hi.trans (g.held_le p t))

end Annals

/-- Every member holds some log up to the index. -/
def Confirmed (g : Annals members) (i : ℕ) : Prop := ∃ t, ∀ p ∈ members, i ≤ g.held p t

theorem Confirmed.mono {g g' : Annals members} (hle : g ≤ g') {i j : ℕ} (h : Confirmed g i)
    (hj : j ≤ i) : Confirmed g' j := by
  obtain ⟨t, ht⟩ := h
  refine ⟨t, fun p hp => ?_⟩
  have hheld := ht p hp
  have hmono := hle.2 p t
  omega

theorem confirmed_zero (g : Annals members) : Confirmed g 0 := ⟨0, fun _ _ => Nat.zero_le _⟩

/-- What the annals know of a node that leads: it holds its own log, and counts what
its peers hold of it. -/
structure Counts (g : Annals members) (id : NodeId) (n : Node) : Prop where
  own : (g.ledger.log n.persistent.term).length ≤ g.held id n.persistent.term
  peers : ∀ seed ∈ n.volatile.seeds.inner, seed.matchIndex ≤ g.held seed.id n.persistent.term

/-- What the annals know of the node `id`. -/
structure Holding (g : Annals members) (id : NodeId) (n : Node) : Prop where
  matched : Matched g.toChronicle id n
  reached : ∀ t, 0 < g.held id t → t ≤ n.persistent.term
  kept : ∀ t, ∀ i ≤ g.held id t, g.ledger.Retains ((g.ledger.log t).take i)
    n.persistent.entries.inner (Set.Ioc t n.persistent.term)
  leads : n.volatile.status = .leader → Counts g id n
  confirmed : Confirmed g n.volatile.commitIndex

/-- What the annals know of a packet in flight. -/
structure Posted (g : Annals members) (p : Packet) : Prop where
  shipped : Shipped g.toChronicle p
  commit : ∀ {src dst req}, p = .entriesReq src dst req → Confirmed g req.leaderCommit
  stored : ∀ {src dst m t}, p = .entriesResp src dst (some m) (some ⟨t, true⟩) → m ≤ g.held src t

/-- What the annals know of an input of the node `id`. -/
structure Reported (g : Annals members) (id : NodeId) (i : Input) : Prop where
  foretold : Foretold g.toChronicle id i
  commit : ∀ {term leader prev prevTerm commit es},
    i = .msg (.appendEntries term leader prev prevTerm commit es) → Confirmed g commit
  stored : ∀ {p m t}, i = .msg (.appendEntriesResp p (some m) (some ⟨t, true⟩)) → m ≤ g.held p t

theorem Posted.mono {g g' : Annals members} (hle : g ≤ g') {p : Packet} (h : Posted g p) :
    Posted g' p where
  shipped := h.shipped.mono hle.1
  commit heq := (h.commit heq).mono hle le_rfl
  stored heq := (h.stored heq).trans (hle.2 _ _)

theorem reported_of_origin {g : Annals members} {id : NodeId} {i : Input}
    (h : Origin members (Posted g) id i) : Reported g id i := by
  refine ⟨foretold_of_origin (h.imp fun _ hp => hp.shipped), fun hi => ?_, fun hi => ?_⟩
  · cases h with
    | tick => cases hi
    | client req => cases req <;> cases hi
    | packet p _ _ hp =>
        cases p with
        | entriesReq =>
            obtain ⟨_, _, _, _, rfl, _⟩ := Msg.appendEntries.inj (Input.msg.inj hi)
            exact hp.commit rfl
        | voteReq | voteResp | entriesResp => cases hi
  · cases h with
    | tick => cases hi
    | client req => cases req <;> cases hi
    | packet p _ _ hp =>
        cases p with
        | entriesResp =>
            obtain ⟨rfl, rfl, rfl⟩ := Msg.appendEntriesResp.inj (Input.msg.inj hi)
            exact hp.stored rfl
        | voteReq | voteResp | entriesReq => cases hi

section

variable {g : Annals members} {id : NodeId} {env : Env} {n n' : Node} {i : Input} {eff : Effects}

/-- **What a turn does to a prefix of the log.**  It stays, unless the turn stores a
batch that contradicts it. -/
theorem Matched.keeps {g : Chronicle members} (hm : Matched g id n) (hin : Foretold g id i)
    (hland : LandsClean n i) (htail : KeepsTail n i) (ht : n.Turned env i n' eff)
    (hfits : IndexFits n i) :
    n.persistent.entries.inner <+: n'.persistent.entries.inner ∨
      n'.volatile.status ≠ .leader ∧
        n'.persistent.entries.inner <+: g.ledger.log n'.persistent.term ∧
          ∀ p, p <+: n.persistent.entries.inner →
            p <+: n'.persistent.entries.inner ∨ Conflict p n'.persistent.entries.inner := by
  cases ht with
  | @entriesStored _ _ prev _ _ es last stored le known end_ store =>
      obtain ⟨hinner, hlast, hpre⟩ := hm.stored hin hland le known end_ store
      refine Or.inr ⟨nofun, hpre, fun p hp => ?_⟩
      show p <+: stored.inner ∨ Conflict p stored.inner
      rcases prefix_or_conflict p stored.inner with h | h | h
      · exact Or.inl h
      · -- the batch leaves a part of the log: then it leaves all of it
        have hpart : stored.inner <+: n.persistent.entries.inner := h.trans hp
        have hall : n.persistent.entries.inner.length ≤ stored.inner.length := by
          by_contra hshort
          obtain ⟨e, he, f, hf, hindex, hterm⟩ := htail le known last end_ (by
            rw [← hlast, hm.numbered.lastIndex]
            exact not_le.1 hshort)
          obtain ⟨j, hj⟩ := List.mem_iff_getElem?.1
            (hinner ▸ List.mem_append_right _ he : e ∈ stored.inner)
          obtain ⟨k, hk⟩ := List.mem_iff_getElem?.1 hf
          have hj' := getElem?_of_isPrefix hpart hj
          have hej := hm.numbered.consecutive.index_getElem? hj'
          have hfk := hm.numbered.consecutive.index_getElem? hk
          obtain rfl : j = k := by omega
          exact hterm (congrArg Entry.term (Option.some.inj (hk.symm.trans hj')))
        exact Or.inl (hpart.eq_of_length_le hall ▸ hp)
      · exact Or.inr h
  | appendStored lead store | appendPending lead store =>
      obtain ⟨new, hnew, _⟩ := hm.numbered.appendEventsLoop (hfits lead)
      rw [store] at hnew
      exact Or.inl ⟨new, hnew.symm⟩
  | _ => exact Or.inl List.prefix_rfl

/-- What the node held before a turn, it holds after it. -/
theorem Holding.kept_turned (hh : Holding g id n) (hin : Reported g id i)
    (hcond : KeepsCommitted env n i) (ht : n.Turned env i n' eff) {g' : Chronicle members}
    (hle : g.toChronicle ≤ g') {t k : ℕ} (hk : k ≤ g.held id t) :
    g'.ledger.Retains ((g'.ledger.log t).take k) n'.persistent.entries.inner
      (Set.Ioc t n'.persistent.term) := by
  have hterm := term_le_turned ht hcond.matchesLogs.electsOnce.termFits
  have hmove := hh.matched.keeps hin.foretold hcond.matchesLogs.keepsNumbers.landsClean
    hcond.keepsTail ht hcond.matchesLogs.keepsNumbers.indexFits
  rw [Annals.take_mono hle.2 hk]
  rcases hmove with hpre | ⟨_, hlog, hall⟩
  · exact (hh.kept t k hk).mono hle.2 hpre fun _ hu => ⟨hu.1, hu.2.trans hterm⟩
  · rcases hh.kept t k hk with hp | ⟨u, hu, hconf⟩
    · rcases hall _ hp with hp' | hconf
      · exact Or.inl hp'
      · -- contradicted by the leader of the term the node is in now
        have hconf' := hconf.mono hlog
        have hpos : 0 < g.held id t := by
          refine Nat.pos_of_ne_zero fun hzero => ?_
          obtain rfl : k = 0 := by omega
          exact hconf.ne_nil_left List.take_zero
        have hreached := hh.reached t hpos
        have hne : t ≠ n'.persistent.term := by
          rintro rfl
          exact not_conflict (List.take_prefix _ _) hconf'
        have hbetween : n'.persistent.term ∈ Set.Ioc t n'.persistent.term := by
          constructor <;> omega
        exact Or.inr ⟨_, hbetween, hconf'.mono (hle.2 _)⟩
    · exact Or.inr ⟨u, ⟨hu.1, hu.2.trans hterm⟩, hconf.mono (hle.2 u)⟩

/-- A leader that is elected inherits what it held. -/
theorem Holding.inherits_turned (hh : Holding g id n) (hin : Reported g id i)
    (hcond : KeepsCommitted env n i) (ht : n.Turned env i n' eff) {g' : Chronicle members}
    (hgrows : Chronicle.Grows id n n' g.toChronicle g') (hm' : Matched g' id n')
    (hfree : g.ballots.leader n'.persistent.term = none) (hlead : n'.volatile.status = .leader)
    {t k : ℕ} (hk : k ≤ g.held id t) :
    g'.ledger.Retains ((g'.ledger.log t).take k) (g'.ledger.log n'.persistent.term)
      (Set.Ioo t n'.persistent.term) := by
  have hterm := term_le_turned ht hcond.matchesLogs.electsOnce.termFits
  have hmove := hh.matched.keeps hin.foretold hcond.matchesLogs.keepsNumbers.landsClean
    hcond.keepsTail ht hcond.matchesLogs.keepsNumbers.indexFits
  rw [Annals.take_mono hgrows.ledger_le hk, ← hm'.leads hlead]
  rcases hh.kept t k hk with hp | ⟨u, hu, hconf⟩
  · rcases hmove with hpre | ⟨hfollow, _⟩
    · exact Or.inl (hp.trans hpre)
    · exact absurd hlead hfollow
  · have hne : u ≠ n'.persistent.term := by
      rintro rfl
      exact hconf.ne_nil_right (g.unopened _ hfree)
    obtain ⟨hafter, hupto⟩ := hu
    have hbetween : u ∈ Set.Ioo t n'.persistent.term := by
      constructor <;> omega
    exact Or.inr ⟨u, hbetween, hconf.mono (hgrows.ledger_le u)⟩

/-- The leaders go on inheriting when the node holds more of the term it is in. -/
theorem Holding.inherits (hh : Holding g id n) (hin : Reported g id i)
    (hcond : KeepsCommitted env n i) (ht : n.Turned env i n' eff) {g' : Chronicle members}
    (hgrows : Chronicle.Grows id n n' g.toChronicle g') (hm' : Matched g' id n') (k : ℕ) :
    g'.ledger.Inherits g'.ballots.leader (raise g.held id n'.persistent.term k) := by
  refine g.inherits.extend hgrows.ledger_le g.held_le ?_ ?_
  · intro t' p hp t hlt
    by_cases hpid : p = id
    · have hreign : t' ≤ n'.persistent.term := (hm'.voting.reign t' (hpid ▸ hp)).1
      exact raise_of_lt (hlt.trans_le hreign)
    · exact raise_of_ne hpid
  · intro t' p hp
    rcases hgrows.ballots.leader t' with hsame | ⟨hfree, rfl, _, hlead⟩
    · exact Or.inl (hsame ▸ hp)
    · have hself := hm'.voting.leads hlead
      obtain rfl : p = id := Option.some.inj (hp.symm.trans hself)
      exact Or.inr fun t _ j hj => hh.inherits_turned hin hcond ht hgrows hm' hfree hlead hj

/-- A leader of the chronicle after a turn of a member is a member. -/
theorem leader_mem_turned (hid : id ∈ members) {g' : Chronicle members}
    (hgrows : Chronicle.Grows id n n' g.toChronicle g') (hm' : Matched g' id n') (t : ℕ)
    (p : NodeId) (hp : g'.ballots.leader t = some p) : p ∈ members := by
  rcases hgrows.ballots.leader t with hsame | ⟨_, rfl, _, hlead⟩
  · exact g.leader_mem t p (hsame ▸ hp)
  · have hself := hm'.voting.leads hlead
    obtain rfl : p = id := Option.some.inj (hp.symm.trans hself)
    exact hid

/-- **The annals after a turn**, given the chronicle after it: the node holds what its
log has of the log of its term. -/
theorem Holding.annals (hh : Holding g id n) (hid : id ∈ members) (hin : Reported g id i)
    (hcond : KeepsCommitted env n i) (ht : n.Turned env i n' eff) {g₁ : Chronicle members}
    (hgrows : Chronicle.Grows id n n' g.toChronicle g₁) (hm' : Matched g₁ id n') :
    ∃ g' : Annals members, g'.toChronicle = g₁ ∧ Annals.Grows id n n' g g' ∧
      (∀ t, 0 < g'.held id t → t ≤ n'.persistent.term) ∧
      (∀ t, ∀ k ≤ g'.held id t, g'.ledger.Retains ((g'.ledger.log t).take k)
        n'.persistent.entries.inner (Set.Ioc t n'.persistent.term)) ∧
      (n'.persistent.entries.inner <+: g'.ledger.log n'.persistent.term →
        n'.persistent.entries.inner.length ≤ g'.held id n'.persistent.term) := by
  obtain ⟨k, hk, hpre, hfull⟩ := exists_common n'.persistent.entries.inner
    (g₁.ledger.log n'.persistent.term)
  have hlen : ∀ p t, raise g.held id n'.persistent.term k p t ≤ (g₁.ledger.log t).length := by
    intro p t
    rcases raise_cases (le_refl (raise g.held id n'.persistent.term k p t)) with h | ⟨_, rfl, h⟩
    · have hmono : (g.ledger.log t).length ≤ (g₁.ledger.log t).length :=
        (hgrows.ledger_le t).length_le
      have hheld := g.held_le p t
      omega
    · omega
  refine ⟨⟨g₁, raise g.held id n'.persistent.term k, hlen, hh.inherits hin hcond ht hgrows hm' k,
    leader_mem_turned hid hgrows hm'⟩, rfl, ⟨hgrows, fun _ _ => le_raise, fun _ _ => raise_of_ne⟩,
    ?_, ?_, ?_⟩
  · intro t hpos
    rcases raise_cases hpos with hold | ⟨_, rfl, _⟩
    · have hterm := term_le_turned ht hcond.matchesLogs.electsOnce.termFits
      have hreached := hh.reached t hold
      omega
    · exact le_rfl
  · intro t j hj
    rcases raise_cases hj with hold | ⟨_, rfl, hle⟩
    · exact hh.kept_turned hin hcond ht hgrows.le hold
    · exact Or.inl ((List.take_prefix_take_left hle).trans hpre)
  · intro hp
    exact (hfull hp).trans le_raise_self

/-- What a leader counts on every peer is held by every member. -/
theorem Counts.all (hc : Counts g id n) (hplace : n.Placed members id)
    (hpeer : ∃ x ∈ members, x ≠ id) :
    ∀ p ∈ members, n.volatile.seeds.computeLowestReplicatedIndex ≤ g.held p n.persistent.term := by
  have hcounts : ∀ p ∈ members, p ≠ id →
      n.volatile.seeds.computeLowestReplicatedIndex ≤ g.held p n.persistent.term := by
    intro p hp hne
    have hids : p ∈ n.volatile.seeds.ids := (hplace.mem_ids p).2 ⟨hp, hne⟩
    obtain ⟨seed, hseed, rfl⟩ := List.mem_map.1 hids
    have hlow := Seeds.computeLowestReplicatedIndex_le hseed
    have hcount := hc.peers seed hseed
    omega
  intro p hp
  by_cases hpid : p = id
  · subst hpid
    obtain ⟨x, hx, hne⟩ := hpeer
    have hlog := g.held_le x n.persistent.term
    have hcount := hcounts x hx hne
    have hown := hc.own
    omega
  · exact hcounts p hp hpid

/-- A leader counts after a turn what it counted before it, and what was answered. -/
theorem Holding.counts (hh : Holding g id n) (hin : Reported g id i)
    (hcond : KeepsCommitted env n i) (ht : n.Turned env i n' eff) {g' : Annals members}
    (hle : g ≤ g') (hm' : Matched g'.toChronicle id n')
    (hfull : n'.persistent.entries.inner <+: g'.ledger.log n'.persistent.term →
      n'.persistent.entries.inner.length ≤ g'.held id n'.persistent.term)
    (hlead : n'.volatile.status = .leader) : Counts g' id n' := by
  have hlog := hm'.leads hlead
  constructor
  case own =>
    rw [hlog] at hfull
    exact hfull List.prefix_rfl
  case peers =>
    intro seed hseed
    rcases ht.matchIndex hlead hseed with hzero | ⟨hbefore, hcount⟩
    · omega
    · rw [term_of_leaders ht hcond.matchesLogs.electsOnce.stepsDown hbefore hlead]
      have hmono := hle.2 seed.id n.persistent.term
      rcases hcount with ⟨x, hx, hxid, hxm⟩ | ⟨term, rfl⟩
      · have hold := (hh.leads hbefore).peers x hx
        rw [hxid, hxm] at hold
        omega
      · obtain rfl : term = n.persistent.term := hcond.answersNow hbefore
        have hnew : seed.matchIndex ≤ g.held seed.id n.persistent.term := hin.stored rfl
        omega

/-- Every commit index is confirmed. -/
theorem Holding.confirmed_turned (hh : Holding g id n) (hin : Reported g id i)
    (ht : n.Turned env i n' eff) {g' : Annals members} (hle : g ≤ g')
    (hplace : n'.Placed members id) (hpeer : ∃ x ∈ members, x ≠ id)
    (hleads : n'.volatile.status = .leader → Counts g' id n') :
    Confirmed g' n'.volatile.commitIndex := by
  cases ht.commits with
  | kept eq => exact hh.confirmed.mono hle eq.le
  | reset eq =>
      rw [eq]
      exact confirmed_zero g'
  | followed input le => exact (hin.commit input).mono hle le
  | counted lead eq =>
      rw [eq]
      exact ⟨n'.persistent.term, (hleads lead).all hplace hpeer⟩

/-- What a leader sends is confirmed. -/
theorem Holding.posted (hh : Holding g id n') (ht : n.Turned env i n' eff) {p : Packet}
    (hp : p ∈ eff.packets id) (hship : Shipped g.toChronicle p) : Posted g p := by
  refine ⟨hship, ?_, ?_⟩
  · rintro src dst req rfl
    rcases Effects.mem_packets.1 hp with ⟨_, _, heq⟩ | ⟨x, hx, heq⟩
    · cases heq
    · obtain ⟨_, _, rfl⟩ := Packet.entriesReq.inj heq
      obtain ⟨_, s, hsend⟩ := ht.sends hx
      obtain ⟨seed, _, rfl⟩ := Seeds.mem_sendAppendEntries hsend
      exact hh.confirmed
  · rintro src dst m t rfl
    rcases Effects.mem_packets.1 hp with ⟨_, _, heq⟩ | ⟨_, _, heq⟩ <;> cases heq

/-- A follower that answers a batch with success holds it. -/
theorem Holding.stored_answer (hh : Holding g id n) {term : ℕ} {leader : NodeId}
    {prev prevTerm commit t : ℕ} {es : List Entry} {last : Entry}
    (hin : Reported g id (.msg (.appendEntries term leader prev prevTerm commit es)))
    (hcond : KeepsCommitted env n (.msg (.appendEntries term leader prev prevTerm commit es)))
    (ht : n.Turned env (.msg (.appendEntries term leader prev prevTerm commit es)) n' eff)
    (hreply : eff.reply = some (t, true)) (hlast : es.getLast? = some last) :
    n'.persistent.term = t ∧ n'.persistent.entries.inner.length = last.index ∧
      n'.persistent.entries.inner <+: g.ledger.log t := by
  cases ht with
  | idle quiet => exact quiet.elim
  | entriesStale | entriesUnknown => simp at hreply
  | entriesEmpty => simp at hlast
  | entriesStored le known end_ store =>
      obtain ⟨rfl, _⟩ := Prod.mk.inj (Option.some.inj hreply)
      obtain rfl := Option.some.inj (end_.symm.trans hlast)
      obtain ⟨_, hlen, hpre⟩ :=
        hh.matched.stored hin.foretold hcond.matchesLogs.keepsNumbers.landsClean le known end_ store
      exact ⟨rfl, hlen, hpre⟩

/-- **Every turn keeps what the annals know of the node.** -/
theorem Holding.turned (hh : Holding g id n) (hid : id ∈ members)
    (hpeer : ∃ x ∈ members, x ≠ id) (hplace : n.Placed members id) (hin : Reported g id i)
    (hcond : KeepsCommitted env n i) (ht : n.Turned env i n' eff) :
    ∃ g', Annals.Grows id n n' g g' ∧ Holding g' id n' ∧
      (n'.persistent.entries.inner <+: g'.ledger.log n'.persistent.term →
        n'.persistent.entries.inner.length ≤ g'.held id n'.persistent.term) ∧
      Answered g'.ballots id eff i ∧ ∀ p ∈ eff.packets id, Posted g' p := by
  obtain ⟨g₁, hgrows₁, hm', hans, hsent⟩ :=
    hh.matched.turned hid hplace hin.foretold hcond.matchesLogs ht
  obtain ⟨g', rfl, hgrows, hreached, hkept, hfull⟩ := hh.annals hid hin hcond ht hgrows₁ hm'
  have hleads := hh.counts hin hcond ht hgrows.le hm' hfull
  have hh' : Holding g' id n' := ⟨hm', hreached, hkept, hleads,
    hh.confirmed_turned hin ht hgrows.le (hplace.turned ht) hpeer hleads⟩
  exact ⟨g', hgrows, hh', hfull, hans, fun p hp => hh'.posted ht hp (hsent p hp)⟩

/-- A turn of another node leaves what the annals know of this one. -/
theorem Holding.other {g' : Annals members} {x : NodeId} {m : Node} (hh : Holding g x m)
    (hx : x ≠ id) (hgrows : Annals.Grows id n n' g g') (hm' : Matched g'.toChronicle id n') :
    Holding g' x m := by
  have hmatched := hh.matched.other hx hgrows.chronicle hm'
  have hheld : ∀ t, g'.held x t = g.held x t := fun t => hgrows.held_of_ne x t hx
  have hledger : g.ledger ≤ g'.ledger := hgrows.chronicle.ledger_le
  constructor
  case matched => exact hmatched
  case reached =>
    intro t hpos
    rw [hheld] at hpos
    exact hh.reached t hpos
  case kept =>
    intro t k hk
    rw [hheld] at hk
    rw [Annals.take_mono hledger hk]
    exact (hh.kept t k hk).mono hledger List.prefix_rfl subset_rfl
  case leads =>
    intro hlead
    obtain ⟨hown, hpeers⟩ := hh.leads hlead
    constructor
    case own =>
      rw [hheld, ← hmatched.leads hlead, hh.matched.leads hlead]
      exact hown
    case peers =>
      intro seed hseed
      have hcount := hpeers seed hseed
      have hmono := hgrows.held_mono seed.id m.persistent.term
      omega
  case confirmed => exact hh.confirmed.mono hgrows.le le_rfl

/-- The reply to a packet is known. -/
theorem Posted.answer {g' : Annals members} {p q : Packet} (hr : p.Routed members)
    (hin : Reported g p.dst (.msg p.msg)) (hh : Holding g p.dst n)
    (hcond : KeepsCommitted env n (.msg p.msg)) (ht : n.Turned env (.msg p.msg) n' eff)
    (hle : g ≤ g') (hfull : n'.persistent.entries.inner <+: g'.ledger.log n'.persistent.term →
      n'.persistent.entries.inner.length ≤ g'.held p.dst n'.persistent.term)
    (hans : Answered g'.ballots p.dst eff (.msg p.msg)) (hq : q ∈ p.answer eff) : Posted g' q := by
  refine ⟨Shipped.answer hr hans hq, ?_, ?_⟩ <;> rintro src dst
  · rintro req rfl
    exact absurd trivial (Packet.not_isRequest_of_mem_answer hq)
  · rintro m t rfl
    cases p with
    | voteReq =>
        obtain ⟨_, _, _, heq⟩ := Packet.mem_answer_voteReq.1 hq
        cases heq
    | entriesReq psrc pdst req =>
        obtain ⟨_, _, hreply, heq⟩ := Packet.mem_answer_entriesReq.1 hq
        obtain ⟨rfl, rfl, hend, heq⟩ := Packet.entriesResp.inj heq
        obtain ⟨rfl, rfl⟩ := AppendEntriesResp.mk.inj (Option.some.inj heq)
        obtain ⟨last, hlast, rfl⟩ := Option.map_eq_some_iff.1 hend.symm
        obtain ⟨rfl, hlen, hpre⟩ := hh.stored_answer hin hcond ht hreply hlast
        exact hlen ▸ hfull (hpre.trans (hle.1.2 _))
    | voteResp | entriesResp => simp [Packet.answer] at hq

/-- What the annals know of a turn: it started with a numbered log, a leader's log is
in the ledger, and what it confirms is held by every member. -/
structure Witnessed (g : Annals members) (t : Step Node Turn) : Prop where
  numbered : t.before.persistent.entries.Numbered
  leads : t.after.volatile.status = .leader →
    t.after.persistent.entries.inner <+: g.ledger.log t.after.persistent.term
  confirms : ∀ {resp index}, (resp, some index) ∈ t.act.effects.answers →
    ∀ p ∈ members, index ≤ g.held p t.after.persistent.term

theorem Witnessed.mono {g g' : Annals members} (hle : g ≤ g') {t : Step Node Turn}
    (h : Witnessed g t) : Witnessed g' t where
  numbered := h.numbered
  leads hlead := (h.leads hlead).trans (hle.1.2 _)
  confirms hans p hp := (h.confirms hans p hp).trans (hle.2 p _)

end

end

theorem holding_start (cfg : Config) (id : NodeId) (now : ℕ) :
    Holding (.empty : Annals cfg.members) id (Node.start id (cfg.seeds id) now) where
  matched := matched_start cfg id now
  reached _ h := absurd h (lt_irrefl 0)
  kept _ _ _ := Or.inl (List.take_nil ▸ List.nil_prefix)
  leads h := absurd ((cfg.start_status id now).symm.trans h) (by decide)
  confirmed := confirmed_zero _

/-- A member has peers, in every state. -/
theorem Placed.isEmpty_eq_false {members : List NodeId} {id : NodeId} {n : Node}
    (hplace : n.Placed members id) (hpeer : ∃ x ∈ members, x ≠ id) :
    n.volatile.seeds.isEmpty = false := by
  obtain ⟨x, hx⟩ := hpeer
  rw [Seeds.isEmpty_eq_false]
  exact List.ne_nil_of_mem ((hplace.mem_ids x).2 hx)

/-- The annals, kept up over the runs of a cluster. -/
def holdings (cfg : Config) : Upkeep cfg KeepsCommitted (Annals cfg.members) where
  node _ := Holding
  packet _ := Posted
  fact g _ t := Witnessed g t
  packet_mono hle hp := hp.mono hle
  fact_mono hle hf := hf.mono hle
  failed _ _ _ _ _ := ⟨⟨trivial, trivial⟩, nofun, nofun⟩
  start now := ⟨.empty, fun id => holding_start cfg id (now id)⟩
  turn {_ g id env n i n' eff} hid hplace hh horigin hcond ht := by
    have hpeer := cfg.exists_peer id
    have hin := reported_of_origin horigin
    obtain ⟨g', hgrows, hh', hfull, hans, hsent⟩ :=
      hh.turned hid hpeer hplace hin hcond ht
    refine ⟨g', hgrows.le, hh', fun x m hx hm => hm.other hx hgrows hh'.matched, hsent, ?_, ?_⟩
    · rintro p hr rfl rfl _ q hq
      exact Posted.answer hr hin hh hcond ht hgrows.le hfull hans hq
    · constructor
      case numbered => exact hh.matched.numbered
      case leads =>
        intro hlead
        rw [← hh'.matched.leads hlead]
      case confirms =>
        intro resp index hmem p hp
        obtain ⟨_, hlead, _, _, hle⟩ := ht.confirmed (Placed.isEmpty_eq_false hplace hpeer) hmem
        have hall := (hh'.leads hlead).all (hplace.turned ht) hpeer p hp
        exact hle.trans hall

/-- **What every member holds is in every log.** -/
theorem Upkeep.prefix_of_held {cfg : Config} {d : Diary} {g : Annals cfg.members} {c : Cluster}
    (hinv : (holdings cfg).Holds d g c) {t i : ℕ} (hheld : ∀ p ∈ cfg.members, i ≤ g.held p t)
    {id : NodeId} (hid : id ∈ cfg.members) : (g.ledger.log t).take i <+: logOf c id :=
  ((hinv.nodes id).kept t i (hheld id hid)).isPrefix fun _ hu hled =>
    Ledger.prefix_of_held g.inherits g.leader_mem g.unopened hheld hu.1 hled

end Safety
end RaftPlayground
