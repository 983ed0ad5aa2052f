/-
# Logs match

Log Matching for the runs in which elections are safe (`ElectsOnce`) and batches
land on a clean prefix (`KeepsNumbers`).

The ghost record gains the log of the leader of every term
(`Protocol.Ledger`).  A node's log is coherent with the ledger, the log of a
leader is the log of its term, and a replication request cuts a batch out of the
log of its term (`Cut`).  A follower that knows the previous entry of a batch has
the whole prefix before it, since both are coherent, so what it stores is a prefix
of the log of the term.
-/

import RaftPlayground.Protocol.Ledger
import RaftPlayground.Safety.Election
import RaftPlayground.Safety.WellFormed

namespace RaftPlayground
namespace Safety

open Protocol Server

/-- The conditions on a turn under which logs match. -/
structure MatchesLogs (env : Env) (n : Node) (i : Input) : Prop where
  electsOnce : ElectsOnce env n i
  keepsNumbers : KeepsNumbers n i

instance (env : Env) (n : Node) (i : Input) : Decidable (MatchesLogs env n i) :=
  decidable_of_iff (ElectsOnce env n i ∧ KeepsNumbers n i)
    ⟨fun h => ⟨h.1, h.2⟩, fun h => ⟨h.1, h.2⟩⟩

/-- The record of elections, and the log of every term. -/
structure Chronicle (members : List NodeId) where
  ballots : Record members
  ledger : Ledger Entry.term
  numbered : ∀ t, Consecutive 0 (ledger.log t)
  unopened : ∀ t, ballots.leader t = none → ledger.log t = []

section

variable {members : List NodeId}

namespace Chronicle

/-- Nothing has happened. -/
def empty : Chronicle members where
  ballots := .empty
  ledger := .empty
  numbered _ := trivial
  unopened _ _ := rfl

instance : Preorder (Chronicle members) where
  le g g' := g.ballots ≤ g'.ballots ∧ g.ledger ≤ g'.ledger
  le_refl _ := ⟨le_rfl, le_rfl⟩
  le_trans _ _ _ h₁ h₂ := ⟨h₁.1.trans h₂.1, h₁.2.trans h₂.2⟩

/-- The elections go on. -/
def vote (g : Chronicle members) (b : Record members) (hb : g.ballots ≤ b) : Chronicle members where
  ballots := b
  ledger := g.ledger
  numbered := g.numbered
  unopened t ht := by
    refine g.unopened t (Option.eq_none_iff_forall_ne_some.2 fun c hc => ?_)
    rw [Ballots.leader_mono hb hc] at ht
    cases ht

/-- The elections go on, and the leader of the term `t` writes on its log. -/
def write (g : Chronicle members) (b : Record members) (hb : g.ballots ≤ b) (t : ℕ) (l : List Entry)
    (hle : g.ledger.log t <+: l) (hl : Coherent Entry.term (Function.update g.ledger.log t l) l)
    (hnum : Consecutive 0 l) (hopen : b.leader t ≠ none) : Chronicle members where
  ballots := b
  ledger := g.ledger.write t l hle hl
  numbered t' := by
    by_cases ht : t' = t
    · rw [ht, g.ledger.write_log_self hle hl]
      exact hnum
    · rw [g.ledger.write_log_of_ne hle hl ht]
      exact g.numbered t'
  unopened t' ht' := by
    have hne : t' ≠ t := fun ht => hopen (ht ▸ ht')
    rw [g.ledger.write_log_of_ne hle hl hne]
    exact (g.vote b hb).unopened t' ht'

/-- The chronicle grows by what the node `id` does: its votes and its election, and
the log of its term while it leads. -/
structure Grows (id : NodeId) (n n' : Node) (g g' : Chronicle members) : Prop where
  ballots : Safety.Grows id n n' g.ballots g'.ballots
  ledger_le : g.ledger ≤ g'.ledger
  ledger : ∀ t, g'.ledger.log t = g.ledger.log t ∨
    (t = n'.persistent.term ∧ n'.volatile.status = .leader)

theorem Grows.le {id : NodeId} {n n' : Node} {g g' : Chronicle members} (h : Grows id n n' g g') :
    g ≤ g' :=
  ⟨h.ballots.ext.le, h.ledger_le⟩

end Chronicle

/-- What the chronicle knows of the node `id`. -/
structure Matched (g : Chronicle members) (id : NodeId) (n : Node) : Prop where
  voting : Voting g.ballots id n
  numbered : n.persistent.entries.Numbered
  coherent : Coherent Entry.term g.ledger.log n.persistent.entries.inner
  leads : n.volatile.status = .leader →
    n.persistent.entries.inner = g.ledger.log n.persistent.term

/-- The batch behind a prefix of the log. -/
structure Cut (l : List Entry) (prev prevTerm : ℕ) (es : List Entry) : Prop where
  le : prev ≤ l.length
  prevTerm : prevTerm = tailTerm 1 (l.take prev)
  batch : es <+: l.drop prev

/-- What the chronicle knows of a packet in flight. -/
def Shipped (g : Chronicle members) (p : Packet) : Prop :=
  Backed g.ballots p ∧
    match p with
    | .entriesReq _ _ req =>
      Cut (g.ledger.log req.term) req.prevLogIndex req.prevLogTerm req.entries
    | .voteReq .. | .voteResp .. | .entriesResp .. => True

/-- What the chronicle knows of an input of the node `id`. -/
def Foretold (g : Chronicle members) (id : NodeId) (i : Input) : Prop :=
  Expected g.ballots id i ∧
    match i with
    | .msg (.appendEntries term _ prev prevTerm _ es) => Cut (g.ledger.log term) prev prevTerm es
    | _ => True

theorem Cut.mono {l l' es : List Entry} {prev prevTerm : ℕ} (h : Cut l prev prevTerm es)
    (hle : l <+: l') : Cut l' prev prevTerm es := by
  obtain ⟨s, rfl⟩ := hle
  have hle := h.le
  constructor
  case le =>
    rw [List.length_append]
    omega
  case prevTerm =>
    rw [List.take_append_of_le_length hle]
    exact h.prevTerm
  case batch =>
    rw [List.drop_append_of_le_length hle]
    exact h.batch.trans (List.prefix_append ..)

theorem Cut.consecutive {l es : List Entry} {prev prevTerm : ℕ} (h : Cut l prev prevTerm es)
    (hl : Consecutive 0 l) : Consecutive prev es := by
  rw [List.prefix_iff_eq_take.1 h.batch]
  exact hl.batch h.le _

/-- The prefix and the batch are a prefix of the log. -/
theorem Cut.append_isPrefix {l es : List Entry} {prev prevTerm : ℕ} (h : Cut l prev prevTerm es) :
    l.take prev ++ es <+: l := by
  have hsplit : l.take prev ++ es <+: l.take prev ++ l.drop prev :=
    (List.prefix_append_right_inj _).2 h.batch
  rwa [List.take_append_drop] at hsplit

/-- **A follower that knows the previous entry has the prefix.** -/
theorem Cut.take_eq {es : Entries} {batch : List Entry} {L : Ledger Entry.term}
    {t prev prevTerm : ℕ} (h : Cut (L.log t) prev prevTerm batch) (hnum : es.Numbered)
    (hcoh : Coherent Entry.term L.log es.inner) (hknown : es.containsLog prev prevTerm = true) :
    es.inner.take prev = (L.log t).take prev := by
  rcases hnum.containsLog.1 hknown with ⟨rfl, _⟩ | ⟨k, e, rfl, he, hterm⟩
  · rfl
  · have hk : k < (L.log t).length := h.le
    have hget := List.getElem?_eq_getElem hk
    have hsame : e.term = (L.log t)[k].term := by
      rw [hterm, h.prevTerm, tailTerm, List.take_succ_eq_append_getElem hk, List.getLast?_concat]
      rfl
    exact hcoh.take_eq (L.coherent t) he hget hsame

theorem Shipped.mono {g g' : Chronicle members} (hle : g ≤ g') {p : Packet} (h : Shipped g p) :
    Shipped g' p := by
  refine ⟨h.1.mono hle.1, ?_⟩
  cases p with
  | entriesReq => exact h.2.mono (hle.2 _)
  | voteReq | voteResp | entriesResp => trivial

theorem foretold_of_origin {g : Chronicle members} {id : NodeId} {i : Input}
    (h : Origin members (Shipped g) id i) : Foretold g id i := by
  cases h with
  | tick => exact ⟨trivial, trivial⟩
  | client req => cases req <;> exact ⟨trivial, trivial⟩
  | packet p hr hdst hp =>
      refine ⟨hdst ▸ hp.1.expected hr, ?_⟩
      cases p with
      | entriesReq => exact hp.2
      | voteReq | voteResp | entriesResp => trivial

theorem Foretold.continuesAt {g : Chronicle members} {id : NodeId} {i : Input}
    (h : Foretold g id i) : ContinuesAt i := by
  unfold ContinuesAt
  split
  · exact h.2.consecutive (g.numbered _)
  · trivial

/-- What a turn does to the log. -/
inductive LogMove (g : Chronicle members) (n n' : Node) : Prop
  /-- Nothing; a leader was one before, in the same term. -/
  | same (log : n'.persistent.entries.inner = n.persistent.entries.inner)
      (lead : n'.volatile.status = .leader →
        n.volatile.status = .leader ∧ n'.persistent.term = n.persistent.term)
  /-- The node is elected with the log it has. -/
  | elected (log : n'.persistent.entries.inner = n.persistent.entries.inner)
      (term : n'.persistent.term = n.persistent.term) (before : n.volatile.status ≠ .leader)
      (after : n'.volatile.status = .leader)
  /-- A leader adds entries of its term. -/
  | appended (new : List Entry)
      (log : n'.persistent.entries.inner = n.persistent.entries.inner ++ new)
      (terms : ∀ e ∈ new, e.term = n.persistent.term)
      (term : n'.persistent.term = n.persistent.term) (before : n.volatile.status = .leader)
      (after : n'.volatile.status = .leader)
  /-- A follower is left with a prefix of the log of its term. -/
  | stored (log : n'.persistent.entries.inner <+: g.ledger.log n'.persistent.term)
      (after : n'.volatile.status = .follower)

section

variable {g : Chronicle members} {id : NodeId} {env : Env} {n n' : Node} {i : Input} {eff : Effects}

/-- A follower that stores a batch is left with a prefix of the log of the term. -/
theorem Matched.stored {term : ℕ} {leader : NodeId} {prev prevTerm commit : ℕ} {es : List Entry}
    {last : Entry} {stored : Entries} (hm : Matched g id n)
    (hin : Foretold g id (.msg (.appendEntries term leader prev prevTerm commit es)))
    (hland : LandsClean n (.msg (.appendEntries term leader prev prevTerm commit es)))
    (le : n.persistent.term ≤ term)
    (known : n.persistent.entries.containsLog prev prevTerm = true)
    (end_ : es.getLast? = some last)
    (store : (Node.truncated n.persistent.entries term prev prevTerm).append es = some stored) :
    stored.inner = n.persistent.entries.inner.take prev ++ es ∧
      stored.inner.length = last.index ∧ stored.inner <+: g.ledger.log term := by
  have hclean := hland le known (by rintro rfl; simp at end_)
  obtain ⟨hinner, hnum⟩ := hm.numbered.stored known hclean hin.continuesAt store
  refine ⟨hinner, ?_, ?_⟩
  · rw [← hnum.lastIndex]
    unfold Entries.append at store
    rw [end_] at store
    exact (Option.some.inj store) ▸ rfl
  · rw [hinner, hin.2.take_eq hm.numbered hm.coherent known]
    exact hin.2.append_isPrefix

/-- **The log in one turn.** -/
theorem Matched.log_move (hm : Matched g id n) (hin : Foretold g id i) (hcond : MatchesLogs env n i)
    (ht : n.Turned env i n' eff) : LogMove g n n' := by
  have hstays := term_of_leaders ht hcond.electsOnce.stepsDown
  cases ht with
  | entriesStored le known end_ store =>
      exact .stored (hm.stored hin hcond.keepsNumbers.landsClean le known end_ store).2.2 rfl
  | appendStored lead store | appendPending lead store =>
      obtain ⟨new, hinner, _, hterms, _⟩ :=
        hm.numbered.appendEventsLoop (hcond.keepsNumbers.indexFits lead)
      rw [store] at hinner
      exact .appended new hinner hterms rfl lead lead
  | elected lead => exact .elected rfl rfl lead rfl
  | voteRefused =>
      exact .same rfl fun hlead => ⟨hlead, hstays hlead hlead⟩
  | candidacy | voteGranted | outrun | entriesUnknown | entriesEmpty =>
      refine .same rfl fun hlead => absurd hlead ?_
      simp
  | _ => exact .same rfl fun hlead => ⟨hlead, rfl⟩

/-- A leader's log, written into the chronicle. -/
theorem Matched.write {b : Record members} (hb : Grows id n n' g.ballots b)
    (hvoting : Voting b id n') (hnum : n'.persistent.entries.Numbered)
    (hlead : n'.volatile.status = .leader)
    (hle : g.ledger.log n'.persistent.term <+: n'.persistent.entries.inner)
    (hcoh : Coherent Entry.term
      (Function.update g.ledger.log n'.persistent.term n'.persistent.entries.inner)
      n'.persistent.entries.inner) :
    ∃ g', Chronicle.Grows id n n' g g' ∧ g'.ballots = b ∧ Matched g' id n' := by
  have hopen : b.leader n'.persistent.term ≠ none := by
    rw [hvoting.leads hlead]
    exact Option.some_ne_none id
  have hself := g.ledger.write_log_self hle hcoh
  refine ⟨g.write b hb.ext.le n'.persistent.term n'.persistent.entries.inner hle hcoh
    hnum.consecutive hopen, ⟨hb, g.ledger.le_write hle hcoh, ?_⟩, rfl,
    ⟨hvoting, hnum, hcoh, fun _ => hself.symm⟩⟩
  intro t
  by_cases ht : t = n'.persistent.term
  · exact Or.inr ⟨ht, hlead⟩
  · exact Or.inl (g.ledger.write_log_of_ne hle hcoh ht)

/-- The chronicle after a turn, given the record of elections after it. -/
theorem Matched.chronicle (hm : Matched g id n) (hmove : LogMove g n n') {b : Record members}
    (hb : Grows id n n' g.ballots b) (hvoting : Voting b id n')
    (hnum : n'.persistent.entries.Numbered) :
    ∃ g', Chronicle.Grows id n n' g g' ∧ g'.ballots = b ∧ Matched g' id n' := by
  cases hmove with
  | same log lead =>
      have hcoh := hm.coherent
      rw [← log] at hcoh
      have hleads : n'.volatile.status = .leader →
          n'.persistent.entries.inner = g.ledger.log n'.persistent.term := by
        intro hlead
        obtain ⟨hbefore, hterm⟩ := lead hlead
        rw [log, hterm]
        exact hm.leads hbefore
      exact ⟨g.vote b hb.ext.le, ⟨hb, le_rfl, fun _ => Or.inl rfl⟩, rfl,
        ⟨hvoting, hnum, hcoh, hleads⟩⟩
  | elected log term before after =>
      have hnone : g.ballots.leader n'.persistent.term = none := by
        rcases hb.leader n'.persistent.term with hsame | ⟨hnone, _⟩
        · rw [hvoting.leads after] at hsame
          have hled : n.volatile.status = .leader := (hm.voting.reign _ hsame.symm).2 term
          exact absurd hled before
        · exact hnone
      have hfree : g.ledger.log n'.persistent.term = [] := g.unopened _ hnone
      have hcoh := hm.coherent
      rw [← log] at hcoh
      have hfirst := g.ledger.coherent_first hfree hcoh
      refine Matched.write hb hvoting hnum after ?_ hfirst
      rw [hfree]
      exact List.nil_prefix
  | appended new log terms term before after =>
      have hlog : n'.persistent.entries.inner = g.ledger.log n'.persistent.term ++ new := by
        rw [log, term, hm.leads before]
      rw [← term] at terms
      refine Matched.write hb hvoting hnum after ?_ ?_
      · rw [hlog]
        exact List.prefix_append ..
      · rw [hlog]
        exact g.ledger.coherent_append terms
  | stored log after =>
      have hcoh := (g.ledger.coherent _).of_isPrefix log
      have hleads : n'.volatile.status = .leader →
          n'.persistent.entries.inner = g.ledger.log n'.persistent.term := by
        intro hlead
        rw [after] at hlead
        cases hlead
      exact ⟨g.vote b hb.ext.le, ⟨hb, le_rfl, fun _ => Or.inl rfl⟩, rfl,
        ⟨hvoting, hnum, hcoh, hleads⟩⟩

/-- What a leader sends is cut out of the log of its term. -/
theorem Matched.shipped (hm : Matched g id n') (ht : n.Turned env i n' eff) {p : Packet}
    (hp : p ∈ eff.packets id) (hback : Backed g.ballots p) : Shipped g p := by
  refine ⟨hback, ?_⟩
  rcases Effects.mem_packets.1 hp with ⟨x, hx, rfl⟩ | ⟨x, hx, rfl⟩
  · trivial
  · obtain ⟨hlead, s, hsend⟩ := ht.sends hx
    obtain ⟨seed, _, rfl⟩ := Seeds.mem_sendAppendEntries hsend
    obtain ⟨k, hk, heq⟩ := hm.numbered.appendEntriesTo s n'.persistent.term
      n'.volatile.commitIndex seed
    rw [heq]
    show Cut (g.ledger.log n'.persistent.term) k _ _
    rw [← hm.leads hlead]
    exact ⟨hk, rfl, List.take_prefix ..⟩

/-- **Every turn keeps what the chronicle knows of the node.** -/
theorem Matched.turned (hm : Matched g id n) (hid : id ∈ members)
    (hplace : n.Placed members id) (hin : Foretold g id i) (hcond : MatchesLogs env n i)
    (ht : n.Turned env i n' eff) :
    ∃ g', Chronicle.Grows id n n' g g' ∧ Matched g' id n' ∧ Answered g'.ballots id eff i ∧
      ∀ p ∈ eff.packets id, Shipped g' p := by
  obtain ⟨b, hb, hvoting, hans, hsent⟩ :=
    hm.voting.turned hid hplace hin.1 hcond.electsOnce ht
  have hnum := numbered_turned hm.numbered hin.continuesAt hcond.keepsNumbers ht
  obtain ⟨g', hgrows, rfl, hm'⟩ := hm.chronicle (hm.log_move hin hcond ht) hb hvoting hnum
  exact ⟨g', hgrows, hm', hans, fun p hp => hm'.shipped ht hp (hsent p hp)⟩

/-- A turn of another node leaves what the chronicle knows of this one. -/
theorem Matched.other {g' : Chronicle members} {x : NodeId} {m : Node} (hm : Matched g x m)
    (hx : x ≠ id) (hgrows : Chronicle.Grows id n n' g g') (hm' : Matched g' id n') :
    Matched g' x m where
  voting := hm.voting.extendsBy hgrows.ballots.ext hx
  numbered := hm.numbered
  coherent := hm.coherent.mono hgrows.ledger_le
  leads hlead := by
    rw [hm.leads hlead]
    rcases hgrows.ledger m.persistent.term with h | ⟨hterm, hlead'⟩
    · exact h.symm
    · -- two leaders of one term
      have hself := hm'.voting.leads hlead'
      have hother := Ballots.leader_mono hgrows.ballots.ext.le (hm.voting.leads hlead)
      rw [hterm, hself] at hother
      have heq : x = id := (Option.some.inj hother).symm
      exact absurd heq hx

/-- The reply to a packet is known. -/
theorem Shipped.answer {p q : Packet} (hr : p.Routed members)
    (hans : Answered g.ballots p.dst eff (.msg p.msg)) (hq : q ∈ p.answer eff) : Shipped g q := by
  refine ⟨Backed.answer hr hans hq, ?_⟩
  cases q with
  | entriesReq => exact (Packet.not_isRequest_of_mem_answer hq trivial).elim
  | voteReq | voteResp | entriesResp => trivial

end

end

theorem matched_start (cfg : Config) (id : NodeId) (now : ℕ) :
    Matched (.empty : Chronicle cfg.members) id (Node.start id (cfg.seeds id) now) where
  voting := voting_start cfg id now
  numbered := Entries.numbered_default
  coherent := Coherent.nil
  leads h := absurd ((cfg.start_status id now).symm.trans h) (by decide)

/-- The chronicle, kept up over the runs of a cluster; a turn leaves a log that is
numbered and coherent with it. -/
def matching (cfg : Config) : Upkeep cfg MatchesLogs (Chronicle cfg.members) where
  node _ := Matched
  packet _ := Shipped
  fact g _ t := t.after.persistent.entries.Numbered ∧
    Coherent Entry.term g.ledger.log t.after.persistent.entries.inner
  packet_mono hle hp := hp.mono hle
  fact_mono hle hf := ⟨hf.1, hf.2.mono hle.2⟩
  failed _ _ _ _ _ := ⟨trivial, trivial⟩
  start now := ⟨.empty, fun id => matched_start cfg id (now id)⟩
  turn hid hplace hm horigin hcond ht := by
    obtain ⟨g', hgrows, hm', hans, hsent⟩ :=
      hm.turned hid hplace (foretold_of_origin horigin) hcond ht
    refine ⟨g', hgrows.le, hm', fun x m hx hm => hm.other hx hgrows hm', hsent, ?_,
      hm'.numbered, hm'.coherent⟩
    rintro p hr rfl rfl _ q hq
    exact Shipped.answer hr hans hq

/-- The log of a node in a state of a run. -/
abbrev logOf (c : Cluster) (id : NodeId) : List Entry := (c.nodes id).persistent.entries.inner

/-- In every state of a run, every log is numbered and coherent with the chronicle. -/
theorem Upkeep.logs {cfg : Config} {started : NodeId → ℕ} {h : List (Step Cluster Action)}
    {c : Cluster} (hrun : ClusterRun cfg started h c)
    (hcond : ∀ st ∈ h, Cluster.Meets MatchesLogs st) :
    ∃ g : Chronicle cfg.members, ∀ c₁, ClusterVisited cfg started h c₁ → ∀ id,
      (c₁.nodes id).persistent.entries.Numbered ∧
        Coherent Entry.term g.ledger.log (logOf c₁ id) := by
  obtain ⟨g, _, hfact⟩ := (matching cfg).run hrun hcond
  refine ⟨g, fun c₁ hvisit id => ?_⟩
  rcases hrun.visited_cases hvisit id with hstart | ⟨t, ht, hafter⟩
  · rw [logOf, hstart]
    exact ⟨Entries.numbered_default, Coherent.nil⟩
  · rw [logOf, ← hafter]
    exact hfact id t ht

/-- **Log Matching.**  In every state of every run whose calls meet `MatchesLogs`, two
logs with entries of one index and one term are equal up to these entries. -/
theorem log_matching {cfg : Config} {started : NodeId → ℕ} {h : List (Step Cluster Action)}
    {c c₁ : Cluster} (hrun : ClusterRun cfg started h c)
    (hcond : ∀ st ∈ h, Cluster.Meets MatchesLogs st) (hvisit : ClusterVisited cfg started h c₁)
    {A B : NodeId} {i j : ℕ} {a b : Entry} (ha : (logOf c₁ A)[i]? = some a)
    (hb : (logOf c₁ B)[j]? = some b) (hindex : a.index = b.index) (hterm : a.term = b.term) :
    (logOf c₁ A).take (i + 1) = (logOf c₁ B).take (j + 1) := by
  obtain ⟨g, hlogs⟩ := Upkeep.logs hrun hcond
  obtain ⟨hnumA, hcohA⟩ := hlogs c₁ hvisit A
  obtain ⟨hnumB, hcohB⟩ := hlogs c₁ hvisit B
  have hi := hnumA.consecutive.index_getElem? ha
  have hj := hnumB.consecutive.index_getElem? hb
  obtain rfl : i = j := by omega
  exact hcohA.take_eq hcohB ha hb hterm

/-- The leader and a follower that has both its entries. -/
theorem log_matching_replication : ∃ h c, ClusterRun .trio (fun _ => 0) h c ∧
    (logOf c (localhost 2113)).length = 2 ∧
      (logOf c (localhost 2113)).take 2 = (logOf c (localhost 2114)).take 2 := by
  obtain ⟨h, c, hrun, hcond, hlen, hA, hB⟩ := ClusterRun.exists_of_replay .trio replication
    (fun h c => (∀ st ∈ h, Cluster.Meets MatchesLogs st) ∧ (logOf c (localhost 2113)).length = 2 ∧
      (logOf c (localhost 2113))[1]? = some ⟨2, 1, putEvent "s" [2]⟩ ∧
        (logOf c (localhost 2114))[1]? = some ⟨2, 1, putEvent "s" [2]⟩) (by decide +kernel)
  exact ⟨h, c, hrun, hlen, log_matching hrun hcond (Run.visited hrun) hA hB rfl rfl⟩

/-- After a batch is stored twice, the logs of leader and follower both hold the
entry of index 3 and differ before it. -/
theorem logs_differ : ∃ h c i j a b, ClusterRun .trio (fun _ => 0) h c ∧
    (logOf c (localhost 2113))[i]? = some a ∧ (logOf c (localhost 2114))[j]? = some b ∧
      a.index = b.index ∧ a.term = b.term ∧
        (logOf c (localhost 2113)).take (i + 1) ≠ (logOf c (localhost 2114)).take (j + 1) := by
  obtain ⟨h, c, hrun, hA, hB, hne⟩ := ClusterRun.exists_of_replay .trio resent
    (fun _ c => (logOf c (localhost 2113))[2]? = some ⟨3, 1, putEvent "s" [3]⟩ ∧
      (logOf c (localhost 2114))[3]? = some ⟨3, 1, putEvent "s" [3]⟩ ∧
        (logOf c (localhost 2113)).take 3 ≠ (logOf c (localhost 2114)).take 4) (by decide +kernel)
  exact ⟨h, c, 2, 3, _, _, hrun, hA, hB, rfl, rfl, hne⟩

end Safety
end RaftPlayground
